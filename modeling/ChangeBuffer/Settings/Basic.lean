import ChangeBuffer.Json

/-! # Settings

Where the buffer keeps its rows and how large the batches are that it emits.
-/

namespace ChangeBuffer

/-- Where rows are kept. -/
inductive StoreKind
  | memory
  | disk
  deriving DecidableEq

/-- Settings of a store on disk. -/
structure SpillSettings where
  /-- The directory in which each store makes one of its own. -/
  scratchDirectory : String
  /-- The table is written to a run when it grows beyond this many bytes. -/
  tableLimit : Nat
  /-- All runs are merged into one when there are this many. -/
  maxRuns : Nat
  /-- One in this many records of a run is indexed. -/
  indexInterval : Nat
  deriving DecidableEq

structure Settings where
  store : StoreKind
  spill : SpillSettings
  /-- The most rows of a batch. -/
  maxBatchRows : Nat
  deriving DecidableEq

inductive ReadFault
  | mistyped (found : String) (expected : String)
  | negative (n : Int)
  | unknownStore (name : String)
  | severalNames
  | tooLong (length : Nat)
  deriving DecidableEq

def ReadFault.message : ReadFault → String
  | mistyped found expected => "invalid type: " ++ found ++ ", expected " ++ expected
  | negative n => s!"invalid value: integer `{n}`, expected usize"
  | unknownStore name => s!"unknown variant `{name}`, expected `in_mem` or `disk`"
  | severalNames => "invalid value: map, expected map with a single key"
  | tooLong length => s!"invalid length {length}, expected fewer elements in array"

inductive SettingsFault
  | unreadable (fault : ReadFault)
  | noBatchRows
  | noScratchDirectory
  | noTableLimit
  | fewRuns
  | noIndexInterval
  deriving DecidableEq

def SettingsFault.message (f : SettingsFault) : String :=
  "invalid mini-batch config: " ++
    match f with
    | unreadable fault => "mini_batch: " ++ fault.message
    | noBatchRows => "max_batch_rows must be > 0"
    | noScratchDirectory => "spill.scratch_dir must be set"
    | noTableLimit => "spill.memtable_limit_bytes must be > 0"
    | fewRuns => "spill.max_spill_runs must be >= 2"
    | noIndexInterval => "spill.index_interval must be > 0"

namespace SpillSettings

/-- What holds where nothing is set.  `temporary` is the directory for temporary files. -/
def default (temporary : String) : SpillSettings := ⟨temporary ++ "/mini_batch", 67108864, 8, 64⟩

def fault? (s : SpillSettings) : Option SettingsFault :=
  if s.scratchDirectory = "" then some .noScratchDirectory
  else if s.tableLimit = 0 then some .noTableLimit
  else if s.maxRuns < 2 then some .fewRuns
  else if s.indexInterval = 0 then some .noIndexInterval
  else none

end SpillSettings

namespace Settings

/-- What holds where nothing is set.  `temporary` is the directory for temporary files. -/
def default (temporary : String) : Settings := ⟨.disk, .default temporary, 8192⟩

/-- The first reason to refuse the settings.  A store in memory needs no spill settings. -/
def fault? (s : Settings) : Option SettingsFault :=
  if s.maxBatchRows = 0 then some .noBatchRows
  else match s.store with
    | .memory => none
    | .disk => s.spill.fault?

end Settings

end ChangeBuffer
