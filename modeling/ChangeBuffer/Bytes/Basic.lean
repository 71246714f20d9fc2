import ChangeBuffer.Instances

/-! # Byte strings

Keys, encoded rows and files are lists of bytes, ordered lexicographically.
-/

namespace ChangeBuffer

/-- A byte string. -/
abbrev Bytes := List UInt8

instance : Std.IsLinearOrder Bytes := inferInstance

instance : Std.LawfulOrderLT Bytes := inferInstance

namespace Bytes

/-- The UTF-8 form of a text. -/
def ofText (s : String) : Bytes := s.toByteArray.data.toList

/-- Whether there are `n` bytes, without looking at more than `n` of them. -/
def hasAtLeast : Nat → Bytes → Bool
  | 0, _ => true
  | _ + 1, [] => false
  | n + 1, _ :: bs => hasAtLeast n bs

@[simp] theorem hasAtLeast_iff {n : Nat} {bs : Bytes} : hasAtLeast n bs ↔ n ≤ bs.length := by
  induction n generalizing bs with
  | zero => simp [hasAtLeast]
  | succ n ih => cases bs <;> simp [hasAtLeast, ih]

end Bytes

end ChangeBuffer
