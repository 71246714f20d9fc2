import ChangeBuffer.Store.Basic

/-! # Stores in memory -/

namespace ChangeBuffer

structure MemoryStore where
  rows : SortedMap Bytes Row

namespace MemoryStore

def empty : MemoryStore := ⟨∅⟩

variable (s : MemoryStore)

def put (key : Bytes) (row : Row) : MemoryStore := ⟨s.rows.insert key row⟩

def remove (key : Bytes) : MemoryStore := ⟨s.rows.erase key⟩

def scan (stem : Bytes) : List (Bytes × Row) := s.rows.entries.filter (stem.isPrefixOf ·.1)

end MemoryStore

instance : Store MemoryStore where
  put s key row := (s.put key row, .ok ())
  remove s key := (s.remove key, .ok ())
  scan s stem := .ok ((s.scan stem).map .ok)
  clear _ := (.empty, .ok ())
  sizeHint s := s.rows.size
  tally _ := .zero

end ChangeBuffer
