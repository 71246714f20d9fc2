import ChangeBuffer.Store.Error

/-! # Stores

A store keeps rows under byte strings in ascending order.  An operation gives the store that it
leaves behind also when it fails.
-/

namespace ChangeBuffer

/-- What a store has written: runs, their bytes, and merges of runs.  Words of 64 bits hold the
numbers as long as fewer than `2 ^ 64` bytes are written. -/
structure SpillTally where
  runs : Nat
  bytes : Nat
  merges : Nat
  deriving DecidableEq

def SpillTally.zero : SpillTally := ⟨0, 0, 0⟩

/-- What every store can do. -/
class Store (σ : Type) where
  put : σ → Bytes → Row → σ × Except StoreError Unit
  remove : σ → Bytes → σ × Except StoreError Unit
  /-- The rows whose keys begin with the bytes, in ascending order of keys. -/
  scan : σ → Bytes → Except StoreError (List (Except StoreError (Bytes × Row)))
  clear : σ → σ × Except StoreError Unit
  /-- A bound on the number of rows. -/
  sizeHint : σ → Nat
  tally : σ → SpillTally

end ChangeBuffer
