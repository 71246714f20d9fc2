import ChangeBuffer.Schema
import ChangeBuffer.Value.Codec

/-! # Keys of buffered rows

Rows with equal key values in one partition are versions of one row.  The byte form of a key
begins with the length and the text of the partition's path, so the keys of a partition are the
keys that begin with its stem.
-/

namespace ChangeBuffer

/-- The values that identify a row within its partition. -/
structure RowKey where
  values : List Value
  canonical : ∀ v ∈ values, v.canonical = v

namespace RowKey

def ofValues (vs : List Value) : RowKey where
  values := vs.map Value.canonical
  canonical := by
    intro v hv
    obtain ⟨w, -, rfl⟩ := List.mem_map.mp hv
    exact w.canonical_canonical

def project (accessors : List Accessor) (places : List (Fin accessors.length)) (r : Row) :
    RowKey :=
  ofValues (places.map fun i => accessors[i].read r)

end RowKey

/-- A path that is too long for its length to fit into four bytes. -/
structure OverlongPath where
  length : Nat
  deriving DecidableEq

def OverlongPath.message (o : OverlongPath) : String :=
  s!"partition path of {o.length} bytes exceeds the u32 length header"

structure EntryKey where
  path : String
  key : RowKey

namespace EntryKey

/-- The beginning of every key of a partition: the length of its path, most significant byte
first, and the path. -/
def stem (path : String) : Except OverlongPath Bytes :=
  let bs := Bytes.ofText path
  if bs.length < 2 ^ 32 then .ok (Word.encodeBig 4 bs.length ++ bs) else .error ⟨bs.length⟩

def encode (k : EntryKey) : Except OverlongPath Bytes :=
  (stem k.path).map (· ++ Value.encodeAll k.key.values)

end EntryKey

end ChangeBuffer
