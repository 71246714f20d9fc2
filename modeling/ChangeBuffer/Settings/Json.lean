import ChangeBuffer.Settings.Basic

/-! # Settings in JSON

Settings are an object, in which members may be missing and others may be added, or an array of
the same members in a fixed order, of which the last may be missing.  What is missing is taken
from default settings.  Of several faults the first is reported, in the order of the members'
names or of the array.
-/

namespace ChangeBuffer

/-- Reads a JSON value as an `α`. -/
abbrev JsonReader (α : Type) := Json → Except ReadFault α

namespace JsonReader

variable {α : Type}

/-- Reads a value if there is one. -/
def orElse (read : JsonReader α) (fallback : α) : Option Json → Except ReadFault α
  | none => .ok fallback
  | some json => read json

def natural : JsonReader Nat
  | .integer n => if n < 0 then .error (.negative n) else .ok n.toNat
  | json => .error (.mistyped json.describe "usize")

def path : JsonReader String
  | .string s => .ok s
  | json => .error (.mistyped json.describe "path string")

/-- The end of an array of which `known` items have been read. -/
def atMost (known : Nat) (items : List Json) (a : α) : Except ReadFault α :=
  if known < items.length then .error (.tooLong items.length) else .ok a

end JsonReader

open JsonReader

namespace StoreKind

def name : StoreKind → String
  | memory => "in_mem"
  | disk => "disk"

def ofName (s : String) : Except ReadFault StoreKind :=
  if s = memory.name then .ok memory
  else if s = disk.name then .ok disk
  else .error (.unknownStore s)

/-- A name, or an object with the name as its only member, which is null. -/
def ofJson : JsonReader StoreKind
  | .string s => ofName s
  | .object [(s, json)] =>
    match ofName s, json with
    | .error fault, _ => .error fault
    | .ok kind, .null => .ok kind
    | .ok _, json => .error (.mistyped json.describe "unit")
  | .object _ => .error .severalNames
  | json => .error (.mistyped json.describe "string or map")

end StoreKind

namespace SpillSettings

def ofJson (default : SpillSettings) : JsonReader SpillSettings
  | .object members => do
    let get := Json.member? members
    let indexInterval ← natural.orElse default.indexInterval (get "index_interval")
    let maxRuns ← natural.orElse default.maxRuns (get "max_spill_runs")
    let tableLimit ← natural.orElse default.tableLimit (get "memtable_limit_bytes")
    let scratchDirectory ← path.orElse default.scratchDirectory (get "scratch_dir")
    return { scratchDirectory, tableLimit, maxRuns, indexInterval }
  | .array items => do
    let scratchDirectory ← path.orElse default.scratchDirectory items[0]?
    let tableLimit ← natural.orElse default.tableLimit items[1]?
    let maxRuns ← natural.orElse default.maxRuns items[2]?
    let indexInterval ← natural.orElse default.indexInterval items[3]?
    atMost 4 items { scratchDirectory, tableLimit, maxRuns, indexInterval }
  | json => .error (.mistyped json.describe "struct SpillStoreConfig")

def toJson (s : SpillSettings) : Json :=
  .object [
    ("scratch_dir", .string s.scratchDirectory),
    ("memtable_limit_bytes", .integer s.tableLimit),
    ("max_spill_runs", .integer s.maxRuns),
    ("index_interval", .integer s.indexInterval)]

end SpillSettings

namespace Settings

def ofJson (default : Settings) : JsonReader Settings
  | .object members => do
    let get := Json.member? members
    let store ← JsonReader.orElse StoreKind.ofJson default.store (get "backend")
    let maxBatchRows ← natural.orElse default.maxBatchRows (get "max_batch_rows")
    let spill ← JsonReader.orElse (SpillSettings.ofJson default.spill) default.spill (get "spill")
    return { store, spill, maxBatchRows }
  | .array items => do
    let store ← JsonReader.orElse StoreKind.ofJson default.store items[0]?
    let spill ← JsonReader.orElse (SpillSettings.ofJson default.spill) default.spill items[1]?
    let maxBatchRows ← natural.orElse default.maxBatchRows items[2]?
    atMost 3 items { store, spill, maxBatchRows }
  | json => .error (.mistyped json.describe "struct MiniBatchConfig")

def toJson (s : Settings) : Json :=
  .object [
    ("backend", .string s.store.name),
    ("spill", s.spill.toJson),
    ("max_batch_rows", .integer s.maxBatchRows)]

/-- The member of a job's configuration that holds the settings. -/
def jobMember : String := "mini_batch"

/-- The settings that stand in a job's configuration, the default ones if there are none. -/
def ofJob (default : Settings) (members : List (String × Json)) : Except SettingsFault Settings :=
  let read : Except ReadFault Settings :=
    match Json.member? members jobMember with
    | none | some .null => .ok default
    | some json => ofJson default json
  match read with
  | .error fault => .error (.unreadable fault)
  | .ok settings =>
    match settings.fault? with
    | some fault => .error fault
    | none => .ok settings

end Settings

end ChangeBuffer
