import ChangeBuffer.Row.Codec
import ChangeBuffer.Run.Merge
import ChangeBuffer.Run.Reader
import ChangeBuffer.Store.Basic
import ChangeBuffer.Store.Host

/-! # Stores on disk

Rows go into a table.  When the table is too large it is written to a run, and when there are too
many runs they are merged into one.  A scan merges the runs, oldest first, with the table.
-/

namespace ChangeBuffer

/-- A table of the newest versions and runs of older ones, which are in the directory. -/
structure DiskStore where
  settings : SpillSettings
  path : String
  folder : Folder
  table : SortedMap Bytes Version
  /-- What the entries of the table are charged together. -/
  tableBytes : Nat
  /-- The runs, oldest first. -/
  runs : List Run
  /-- The number of the next run.  No number is used twice, as long as there are fewer than `2 ^ 64`
  runs. -/
  nextRun : Nat
  tally : SpillTally

namespace DiskStore

/-- The number of bytes of the name of a store's directory. -/
def nameSize : Nat := 47

/-- A new store in an empty directory, if the host can make one in the scratch directory. -/
def create (settings : SpillSettings) (host : Host) (path : String) :
    Except StoreError DiskStore :=
  match settings.fault? with
  | some fault => .error (.settings fault)
  | none =>
    match host.fault? settings.scratchDirectory nameSize with
    | some fault => .error (.file fault)
    | none => .ok ⟨settings, path, ∅, ∅, 0, [], 0, .zero⟩

/-- What an entry is charged on top of its bytes. -/
def overhead : Nat := 48

def charge (key : Bytes) (version : Version) : Nat :=
  key.length + version.payload.length + overhead

def runName (n : Nat) : String := "run-" ++ String.ofList (Numeral.padded 8 n) ++ ".spill"

variable (s : DiskStore)

/-- Whether the path of the run with a number is short enough for the run to be written. -/
def hasRoomFor (n : Nat) : Bool :=
  (runName n).utf8ByteSize + 1 + Path.sizeWith s.settings.scratchDirectory nameSize ≤ Path.maxSize

/-- Whether the path of the next run is short enough for the run to be written. -/
def hasRoom : Bool := s.hasRoomFor s.nextRun

def filePath (name : String) : String := s.path ++ "/" ++ name

/-- The rows of the runs, scanned for keys that begin with `stem`. -/
def runSources (stem : Bytes) : Except StoreError (List (Merge.Source StoreError)) :=
  s.runs.mapM fun run => run.scan s.folder (s.filePath run.name) stem

/-- The entries of the table whose keys begin with `stem`. -/
def tableSource (stem : Bytes) : Merge.Source StoreError :=
  (s.table.entries.filter (stem.isPrefixOf ·.1)).map fun (key, version) => .ok ⟨key, version⟩

/-- Writes a new run from what `items` gives for the name of the run. -/
def writeRun (items : List (Except StoreError Entry)) :
    DiskStore × Except StoreError Run :=
  let name := runName s.nextRun
  let t := { s with nextRun := s.nextRun + 1 }
  let (w, result) := (RunWriter.create (s.filePath name) s.settings.indexInterval).appendAll items
  if s.hasRoom then
    match s.folder.write name w.content with
    | .error fault => (t, .error (.file fault))
    | .ok folder => ({ t with folder }, result.map fun _ => w.finish name)
  else (t, .error (.file .nameTooLong))

/-- Removes the files of runs up to the first that cannot be removed. -/
def discardRuns (folder : Folder) : List Run → Folder × Except StoreError Unit
  | [] => (folder, .ok ())
  | run :: runs =>
    match folder.discard run.name with
    | .error fault => (folder, .error (.file fault))
    | .ok folder => discardRuns folder runs

/-- Merges all runs into one.  Removed rows leave nothing behind, as no older run has them. -/
def mergeRuns : DiskStore × Except StoreError Unit :=
  let items :=
    match s.runSources [] with
    | .error e => [.error e]
    | .ok sources =>
      (Merge.merge sources).map fun item => item.map fun (key, row) => ⟨key, .present row⟩
  match s.writeRun items with
  | (s, .error e) => (s, .error e)
  | (s, .ok run) =>
    match discardRuns s.folder s.runs with
    | (folder, .error e) => ({ s with folder, runs := [run] }, .error e)
    | (folder, .ok ()) =>
      ({ s with
          folder
          runs := [run]
          tally := { s.tally with merges := s.tally.merges + 1 } }, .ok ())

/-- Writes the table to a run and empties it. -/
def spill : DiskStore × Except StoreError Unit :=
  if s.table.isEmpty then (s, .ok ())
  else match s.writeRun (s.tableSource []) with
    | (s, .error e) => (s, .error e)
    | (s, .ok run) =>
      let s :=
        { s with
          table := ∅
          tableBytes := 0
          runs := s.runs ++ [run]
          tally := { s.tally with runs := s.tally.runs + 1, bytes := s.tally.bytes + run.size } }
      if s.settings.maxRuns ≤ s.runs.length then s.mergeRuns else (s, .ok ())

def charged (key : Bytes) : Nat :=
  match s.table.find? key with
  | some version => charge key version
  | none => 0

/-- Puts a version into the table, and writes the table to a run if it is too large. -/
def insert (key : Bytes) (version : Version) : DiskStore × Except StoreError Unit :=
  let s :=
    { s with
      table := s.table.insert key version
      tableBytes := s.tableBytes - s.charged key + charge key version }
  if s.settings.tableLimit < s.tableBytes then s.spill else (s, .ok ())

def put (key : Bytes) (row : Row) : DiskStore × Except StoreError Unit :=
  s.insert key (.present row.encode)

/-- Removes a row.  If there are runs that may have it, the table marks it as removed. -/
def remove (key : Bytes) : DiskStore × Except StoreError Unit :=
  if s.runs.isEmpty then
    ({ s with table := s.table.erase key, tableBytes := s.tableBytes - s.charged key }, .ok ())
  else s.insert key .removed

/-- The row that an item of a merge holds. -/
def decodeItem : Except StoreError (Bytes × Bytes) → Except StoreError (Bytes × Row)
  | .error e => .error e
  | .ok (key, bytes) =>
    match Row.decode bytes with
    | .error fault => .error (.undecodable fault)
    | .ok row => .ok (key, row)

def scan (stem : Bytes) : Except StoreError (List (Except StoreError (Bytes × Row))) :=
  (s.runSources stem).map fun sources =>
    (Merge.merge (sources ++ [s.tableSource stem])).map decodeItem

def clear : DiskStore × Except StoreError Unit :=
  let (folder, result) := discardRuns s.folder s.runs
  ({ s with folder, table := ∅, tableBytes := 0, runs := [] }, result)

/-- The entries of the table and the runs, in which a key may be counted more than once. -/
def sizeHint : Nat := s.table.size + (s.runs.map Run.entries).sum

end DiskStore

instance : Store DiskStore where
  put := DiskStore.put
  remove := DiskStore.remove
  scan := DiskStore.scan
  clear := DiskStore.clear
  sizeHint := DiskStore.sizeHint
  tally := DiskStore.tally

end ChangeBuffer
