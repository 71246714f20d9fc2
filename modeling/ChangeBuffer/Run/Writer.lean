import ChangeBuffer.Run.Record
import ChangeBuffer.Store.Error

/-! # Writing runs

A run is a file of records in strictly ascending order of keys, behind a header.  Of every few
records one is indexed, so that a search can begin near the keys that it looks for.
-/

namespace ChangeBuffer

/-- What is known of a run without reading its file. -/
structure Run where
  name : String
  entries : Nat
  size : Nat
  /-- The keys of the indexed records and their offsets, in ascending order. -/
  index : List (Bytes × Nat)
  deriving DecidableEq

namespace Run

def magic : Bytes := [0x4D, 0x42, 0x53, 0x52]

def formatVersion : Nat := 1

def header : Bytes := magic ++ Word.encode 2 formatVersion

/-- The index of records that begin at `offset`, if `position` records stand in front of them. -/
def indexFrom (interval position offset : Nat) : List Entry → List (Bytes × Nat)
  | [] => []
  | e :: es =>
    let rest := indexFrom interval (position + 1) (offset + e.size) es
    if position % interval = 0 then (e.key, offset) :: rest else rest

end Run

/-- The records that a new run has taken so far, the last one first. -/
structure RunWriter where
  path : String
  interval : Nat
  taken : List Entry

namespace RunWriter

def create (path : String) (interval : Nat) : RunWriter := ⟨path, max interval 1, []⟩

variable (w : RunWriter)

def entries : List Entry := w.taken.reverse

/-- Whether the key does not come after the last one. -/
def refuses (key : Bytes) : Bool :=
  match w.taken with
  | last :: _ => !(last.key < key)
  | [] => false

/-- Takes one more record, if its key comes after the last one and its lengths can be written. -/
def append (e : Entry) : Except StoreError RunWriter :=
  if w.refuses e.key then .error (.corrupted w.path .disorder)
  else match e.excess? with
    | some (part, length) => .error (.oversized part length)
    | none => .ok { w with taken := e :: w.taken }

/-- Takes records up to the first failure, and gives what is taken with that failure. -/
def appendAll (w : RunWriter) : List (Except StoreError Entry) → RunWriter × Except StoreError Unit
  | [] => (w, .ok ())
  | .error e :: _ => (w, .error e)
  | .ok e :: es =>
    match w.append e with
    | .error e => (w, .error e)
    | .ok w => w.appendAll es

def content : Bytes := Run.header ++ w.entries.flatMap Entry.encode

def finish (name : String) : Run where
  name := name
  entries := w.entries.length
  size := Run.header.length + (w.entries.map Entry.size).sum
  index := Run.indexFrom w.interval 0 Run.header.length w.entries

end RunWriter

end ChangeBuffer
