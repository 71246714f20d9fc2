import ChangeBuffer.Bytes.Crc32
import ChangeBuffer.Bytes.Word

/-! # Burst errors

The register of the checksum is linear in the bytes that it absorbs, and no two registers become
equal by absorbing the same bytes.  Four bytes fill the register, so byte strings that differ
within four bytes in a row have different checksums.
-/

namespace ChangeBuffer.Crc32

/-- The polynomial, or nothing if the lowest bit of the register is clear. -/
def feedback (s : UInt32) : UInt32 := if s.toBitVec.getLsbD 0 then 0xEDB88320 else 0

theorem and_one_eq_one_iff (s : UInt32) : s &&& 1 = 1 ↔ s.toBitVec.getLsbD 0 = true := by
  have h : (s &&& 1).toBitVec = BitVec.setWidth 32 (BitVec.ofBool (s.toBitVec.getLsbD 0)) :=
    BitVec.and_one_eq_setWidth_ofBool_getLsbD
  rw [← UInt32.toBitVec_inj, h]
  cases s.toBitVec.getLsbD 0 <;> decide

theorem shift_eq (s : UInt32) : shift s = (s >>> 1) ^^^ feedback s := by
  simp only [shift, feedback, and_one_eq_one_iff]
  split <;> simp

theorem shift_xor (s t : UInt32) : shift (s ^^^ t) = shift s ^^^ shift t := by
  have hb : (s ^^^ t) >>> 1 = (s >>> 1) ^^^ (t >>> 1) := UInt32.shiftRight_xor
  have hf : feedback (s ^^^ t) = feedback s ^^^ feedback t := by
    simp only [feedback, UInt32.toBitVec_xor, BitVec.getLsbD_xor]
    cases s.toBitVec.getLsbD 0 <;> cases t.toBitVec.getLsbD 0 <;> decide
  rw [shift_eq, shift_eq, shift_eq, hb, hf]
  ac_rfl

theorem shifts_add (m n : Nat) (s : UInt32) : shifts (m + n) s = shifts n (shifts m s) := by
  induction m generalizing s with
  | zero => simp [shifts]
  | succ m ih => rw [Nat.succ_add]; exact ih _

theorem shifts_xor (n : Nat) (s t : UInt32) : shifts n (s ^^^ t) = shifts n s ^^^ shifts n t := by
  induction n generalizing s t with
  | zero => rfl
  | succ n ih => rw [shifts, shifts, shifts, shift_xor, ih]

theorem shift_eq_zero {s : UInt32} (h : shift s = 0) : s = 0 := by
  have hbits (i : Nat) : s.toBitVec.getLsbD (1 + i) = (feedback s).toBitVec.getLsbD i := by
    have hi : ((s >>> 1) ^^^ feedback s).toBitVec.getLsbD i = false := by
      rw [← shift_eq, h]
      simp
    simpa using hi
  have hlow : s.toBitVec.getLsbD 0 = false := by
    have htop : s.toBitVec.getLsbD 32 = false := BitVec.getLsbD_of_ge _ _ (Nat.le_refl _)
    rw [hbits 31] at htop
    cases hs : s.toBitVec.getLsbD 0 with
    | false => rfl
    | true =>
      rw [feedback, if_pos hs] at htop
      exact absurd htop (by decide)
  apply UInt32.toBitVec_inj.mp
  apply BitVec.eq_of_getLsbD_eq
  intro i _
  cases i with
  | zero => simpa using hlow
  | succ i =>
    rw [Nat.add_comm i 1, hbits, feedback, hlow, if_neg Bool.false_ne_true]
    simp

theorem shifts_eq_zero {n : Nat} {s : UInt32} (h : shifts n s = 0) : s = 0 := by
  induction n generalizing s with
  | zero => exact h
  | succ n ih => exact shift_eq_zero (ih h)

theorem shifts_inj {n : Nat} {s t : UInt32} (h : shifts n s = shifts n t) : s = t := by
  have hx : shifts n (s ^^^ t) = 0 := by rw [shifts_xor, h, UInt32.xor_self]
  exact UInt32.xor_eq_zero_iff.mp (shifts_eq_zero hx)

theorem absorb_inj {b : UInt8} {s t : UInt32} (h : absorb s b = absorb t b) : s = t :=
  (UInt32.xor_left_inj _).mp (shifts_inj h)

theorem foldl_absorb_inj {bs : Bytes} {s t : UInt32}
    (h : bs.foldl absorb s = bs.foldl absorb t) : s = t := by
  induction bs generalizing s t with
  | nil => exact h
  | cons b bs ih => exact absorb_inj (ih h)

theorem shifts_two_pow_mul {n v : Nat} (h : 2 ^ n * v < 2 ^ 32) :
    shifts n (.ofNat (2 ^ n * v)) = .ofNat v := by
  induction n with
  | zero => simp [shifts]
  | succ n ih =>
    have hpow : 2 ^ (n + 1) * v = 2 * (2 ^ n * v) := by rw [Nat.pow_succ]; ac_rfl
    rw [hpow] at h ⊢
    have hlow : ¬ UInt32.ofNat (2 * (2 ^ n * v)) &&& 1 = 1 := by
      rw [← UInt32.toNat_inj, UInt32.toNat_and, UInt32.toNat_ofNat_of_lt' h]
      simp
    have hhalf : UInt32.ofNat (2 * (2 ^ n * v)) >>> 1 = .ofNat (2 ^ n * v) := by
      rw [← UInt32.toNat_inj, UInt32.toNat_shiftRight, UInt32.toNat_ofNat_of_lt' h,
        UInt32.toNat_ofNat_of_lt' (show 2 ^ n * v < UInt32.size by simp [UInt32.size]; omega)]
      simp [Nat.shiftRight_eq_div_pow]
    rw [shifts, shift, if_neg hlow, hhalf]
    exact ih (by omega)

theorem ofNat_value_cons (b : UInt8) (bs : Bytes) :
    UInt32.ofNat (Word.value (b :: bs)) = b.toUInt32 ^^^ .ofNat (256 * Word.value bs) := by
  have hb := b.toNat_lt
  have hxor : Word.value (b :: bs) = b.toNat ^^^ (256 * Word.value bs) := by
    apply Nat.eq_of_testBit_eq
    intro i
    rw [Word.value, Nat.testBit_xor, Nat.add_comm, show 256 = 2 ^ 8 by rfl,
      Nat.testBit_two_pow_mul_add _ hb, Nat.testBit_two_pow_mul]
    by_cases hi : i < 8
    · simp [hi, show ¬ 8 ≤ i by omega]
    · have : b.toNat.testBit i = false :=
        Nat.testBit_lt_two_pow (Nat.lt_of_lt_of_le hb (Nat.pow_le_pow_right (by omega) (by omega)))
      simp [hi, this]
      omega
  rw [hxor, UInt32.ofNat_xor]
  congr 1
  exact UInt32.toNat_inj.mp (by simp)

/-- Four bytes fill the register. -/
theorem foldl_absorb_eq (bs : Bytes) (h : bs.length ≤ 4) (s : UInt32) :
    bs.foldl absorb s = shifts (8 * bs.length) (s ^^^ .ofNat (Word.value bs)) := by
  induction bs generalizing s with
  | nil => simp [shifts, Word.value]
  | cons b bs ih =>
    rw [List.length_cons] at h
    have hv : 2 ^ 8 * Word.value bs < 2 ^ 32 := by
      have hlt := Word.value_lt bs
      have : 256 ^ bs.length ≤ 256 ^ 3 := Nat.pow_le_pow_right (by omega) (by omega)
      omega
    have hrest : shifts 8 (.ofNat (256 * Word.value bs)) = .ofNat (Word.value bs) :=
      shifts_two_pow_mul hv
    have hb : absorb s b ^^^ .ofNat (Word.value bs) =
        shifts 8 (s ^^^ .ofNat (Word.value (b :: bs))) := by
      rw [ofNat_value_cons, ← UInt32.xor_assoc, shifts_xor, hrest, absorb]
    rw [List.foldl_cons, ih (by omega), hb, ← shifts_add, List.length_cons]
    congr 1
    omega

/-- A change within four bytes in a row changes the checksum. -/
theorem checksum_ne_of_burst {front old new back : Bytes} (hlen : new.length = old.length)
    (hsize : old.length ≤ 4) (hne : new ≠ old) :
    checksum (front ++ new ++ back) ≠ checksum (front ++ old ++ back) := by
  intro h
  rw [checksum, checksum, UInt32.xor_left_inj] at h
  simp only [List.foldl_append] at h
  have hwindow := foldl_absorb_inj h
  rw [foldl_absorb_eq _ (by omega), foldl_absorb_eq _ hsize, hlen] at hwindow
  have hword := (UInt32.xor_right_inj _).mp (shifts_inj hwindow)
  have hlt (bs : Bytes) (hbs : bs.length ≤ 4) : Word.value bs < 2 ^ 32 :=
    Nat.lt_of_lt_of_le (Word.value_lt bs)
      (Nat.pow_le_pow_right (n := 256) (by omega) hbs)
  have hvalue := congrArg UInt32.toNat hword
  rw [UInt32.toNat_ofNat_of_lt' (hlt _ (by omega)), UInt32.toNat_ofNat_of_lt' (hlt _ hsize)]
    at hvalue
  apply hne
  rw [← Word.encode_value new, ← Word.encode_value old, hlen, hvalue]

end ChangeBuffer.Crc32
