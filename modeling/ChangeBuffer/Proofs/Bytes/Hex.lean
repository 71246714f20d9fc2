import ChangeBuffer.Bytes.Hex

/-! # Reading hexadecimal digits

Bytes are read back from their digits, two for each byte.
-/

namespace ChangeBuffer.Hex

def value? (c : Char) : Option Nat :=
  if '0' ≤ c ∧ c ≤ '9' then some (c.toNat - 48)
  else if 'a' ≤ c ∧ c ≤ 'f' then some (c.toNat - 87)
  else none

/-- The bytes of which the digits are given. -/
def read : List Char → Option Bytes
  | [] => some []
  | high :: low :: cs =>
    match value? high, value? low with
    | some h, some l => (read cs).map (UInt8.ofNat (16 * h + l) :: ·)
    | _, _ => none
  | [_] => none

theorem value?_digit {n : Nat} (h : n < 16) : value? (digit n) = some n := by
  revert n
  decide

theorem read_encode (bs : Bytes) : read (encode bs) = some bs := by
  unfold encode
  induction bs with
  | nil => rfl
  | cons b bs ih =>
    have hb := b.toNat_lt
    have hdigits : UInt8.ofNat (16 * (b.toNat / 16) + b.toNat % 16) = b := by
      rw [Nat.div_add_mod, UInt8.ofNat_toNat]
    simp only [List.flatMap_cons, List.cons_append, List.nil_append, read, ih, hdigits,
      value?_digit (show b.toNat / 16 < 16 by omega), value?_digit (show b.toNat % 16 < 16 by omega),
      Option.map_some]

theorem encode_inj {bs bs' : Bytes} (h : encode bs = encode bs') : bs = bs' := by
  have hread := congrArg read h
  rw [read_encode, read_encode] at hread
  exact Option.some.inj hread

end ChangeBuffer.Hex
