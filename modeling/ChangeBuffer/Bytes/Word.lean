import ChangeBuffer.Bytes.Basic

/-! # Fixed-width words

A word of width `k` is the natural number below `256 ^ k` that its `k` bytes spell, the least
significant byte first.  Writing and reading undo each other.
-/

namespace ChangeBuffer.Word

/-- The `k` low bytes of `n`, the least significant first. -/
def encode : Nat → Nat → Bytes
  | 0, _ => []
  | k + 1, n => UInt8.ofNat n :: encode k (n / 256)

/-- The number that the bytes spell, the least significant first. -/
def value : Bytes → Nat
  | [] => 0
  | b :: bs => b.toNat + 256 * value bs

/-- The `k` low bytes of `n`, the most significant first. -/
def encodeBig (k n : Nat) : Bytes := (encode k n).reverse

@[simp] theorem length_encode (k n : Nat) : (encode k n).length = k := by
  induction k generalizing n with
  | zero => rfl
  | succ k ih => simp [encode, ih]

@[simp] theorem length_encodeBig (k n : Nat) : (encodeBig k n).length = k := by
  simp [encodeBig]

theorem value_lt (bs : Bytes) : value bs < 256 ^ bs.length := by
  induction bs with
  | nil => simp [value]
  | cons b bs ih =>
    have := b.toNat_lt
    rw [value, List.length_cons, Nat.pow_succ]
    omega

theorem value_encode {k n : Nat} (h : n < 256 ^ k) : value (encode k n) = n := by
  induction k generalizing n with
  | zero => simp at h; simp [encode, value, h]
  | succ k ih =>
    rw [Nat.pow_succ] at h
    rw [encode, value, ih (by omega), UInt8.toNat_ofNat']
    omega

theorem encode_value (bs : Bytes) : encode bs.length (value bs) = bs := by
  induction bs with
  | nil => rfl
  | cons b bs ih =>
    have hb := b.toNat_lt
    have hd : (b.toNat + 256 * value bs) / 256 = value bs := by omega
    rw [value, List.length_cons, encode, hd, ih]
    congr 1
    apply UInt8.toNat_inj.mp
    rw [UInt8.toNat_ofNat']
    omega

end ChangeBuffer.Word
