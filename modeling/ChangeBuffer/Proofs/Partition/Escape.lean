import ChangeBuffer.Partition.Escape
import ChangeBuffer.Proofs.Codec.Decoder
import Mathlib

/-! # Reading escaped texts

Escaped texts are read back by form decoding.  They hold letters, digits and a few marks, and none
of the separators of a path.
-/

namespace ChangeBuffer

def Hex.upperValue? (c : Char) : Option Nat :=
  if '0' ≤ c ∧ c ≤ '9' then some (c.toNat - 48)
  else if 'A' ≤ c ∧ c ≤ 'F' then some (c.toNat - 55)
  else none

theorem Hex.upperValue?_upperDigit {n : Nat} (h : n < 16) : upperValue? (upperDigit n) = some n := by
  revert n
  decide

namespace Partition.Escape

/-- The bytes that characters stand for: a byte for two digits behind `%`, a space for `+`, and the
byte of its code for any other character. -/
def bytes : List Char → Option Bytes
  | [] => some []
  | c :: cs =>
    if c = '%' then
      match cs with
      | high :: low :: cs =>
        match Hex.upperValue? high, Hex.upperValue? low with
        | some h, some l => (bytes cs).map (UInt8.ofNat (16 * h + l) :: ·)
        | _, _ => none
      | _ => none
    else (bytes cs).map ((if c = '+' then 0x20 else UInt8.ofNat c.toNat) :: ·)

def decode (cs : List Char) : Option String := (bytes cs).bind fun bs => (Utf8.decode bs).toOption

def Plain (c : Char) : Prop := c.isAlphanum ∨ c ∈ ['.', '-', '*', '_']

def Escaped (c : Char) : Prop := Plain c ∨ c ∈ ['+', '%']

instance (c : Char) : Decidable (Plain c) := inferInstanceAs (Decidable (_ ∨ _))

instance (c : Char) : Decidable (Escaped c) := inferInstanceAs (Decidable (_ ∨ _))

theorem plain_iff {c : Char} :
    Plain c ↔ (0x61 ≤ c.toNat ∧ c.toNat ≤ 0x7A ∨ 0x41 ≤ c.toNat ∧ c.toNat ≤ 0x5A ∨
      0x30 ≤ c.toNat ∧ c.toNat ≤ 0x39) ∨
        c.toNat = 0x2E ∨ c.toNat = 0x2D ∨ c.toNat = 0x2A ∨ c.toNat = 0x5F := by
  simp only [Plain, Char.isAlphanum, Char.isAlpha, Char.isUpper, Char.isLower, Char.isDigit,
    UInt32.le_iff_toNat_le, ge_iff_le, Bool.or_eq_true, Bool.and_eq_true, decide_eq_true_eq,
    Char.toNat_val, List.mem_cons, List.not_mem_nil, or_false, ← Char.toNat_inj, Char.reduceToNat]
  omega

theorem toNat_ofNat_toNat (b : UInt8) : (Char.ofNat b.toNat).toNat = b.toNat := by
  have hb := b.toNat_lt
  rw [Char.toNat_ofNat, if_pos (Or.inl (by omega))]

theorem isPlain_iff {b : UInt8} : isPlain b ↔ Plain (Char.ofNat b.toNat) := by
  rw [plain_iff, toNat_ofNat_toNat]
  simp [isPlain, UInt8.le_iff_toNat_le, ← UInt8.toNat_inj, or_assoc]

theorem bytes_cons_of_ne {c : Char} (h : c ≠ '%') (cs : List Char) :
    bytes (c :: cs) = (bytes cs).map ((if c = '+' then 0x20 else UInt8.ofNat c.toNat) :: ·) := by
  rw [bytes.eq_def]
  simp only [h, if_false]

theorem bytes_encodeByte (b : UInt8) (cs : List Char) :
    bytes (encodeByte b ++ cs) = (bytes cs).map (b :: ·) := by
  unfold encodeByte
  split
  next hplain =>
    have hplain := isPlain_iff.mp hplain
    have hpercent : Char.ofNat b.toNat ≠ '%' := by
      intro h
      rw [h] at hplain
      exact absurd hplain (by decide)
    have hplus : Char.ofNat b.toNat ≠ '+' := by
      intro h
      rw [h] at hplain
      exact absurd hplain (by decide)
    rw [List.singleton_append, bytes_cons_of_ne hpercent, if_neg hplus, toNat_ofNat_toNat,
      UInt8.ofNat_toNat]
  next =>
    split
    next hspace =>
      rw [hspace]
      exact bytes_cons_of_ne (by decide) cs
    next =>
      have hb := b.toNat_lt
      have hdigits : UInt8.ofNat (16 * (b.toNat / 16) + b.toNat % 16) = b := by
        rw [Nat.div_add_mod, UInt8.ofNat_toNat]
      simp only [List.cons_append, List.nil_append, bytes, if_true, hdigits,
        Hex.upperValue?_upperDigit (show b.toNat / 16 < 16 by omega),
        Hex.upperValue?_upperDigit (show b.toNat % 16 < 16 by omega)]

theorem bytes_encode (s : String) : bytes (encode s) = some (Bytes.ofText s) := by
  unfold encode
  induction Bytes.ofText s with
  | nil => rfl
  | cons b bs ih => rw [List.flatMap_cons, bytes_encodeByte, ih, Option.map_some]

/-- Escaped texts can be read back. -/
theorem decode_encode (s : String) : decode (encode s) = some s := by
  rw [decode, bytes_encode, Option.bind_some, Utf8.decode_ofText]
  rfl

theorem escaped_upperDigit {n : Nat} (h : n < 16) : Escaped (Hex.upperDigit n) := by
  revert n
  decide

theorem escaped_of_mem_encodeByte {b : UInt8} {c : Char} (h : c ∈ encodeByte b) : Escaped c := by
  unfold encodeByte at h
  split at h
  next hplain =>
    rw [List.mem_singleton.mp h]
    exact Or.inl (isPlain_iff.mp hplain)
  next =>
    split at h
    · rw [List.mem_singleton.mp h]
      decide
    · have hb := b.toNat_lt
      simp only [List.mem_cons, List.not_mem_nil, or_false] at h
      rcases h with rfl | rfl | rfl
      · decide
      · exact escaped_upperDigit (by omega)
      · exact escaped_upperDigit (by omega)

theorem escaped_of_mem_encode {s : String} {c : Char} (h : c ∈ encode s) : Escaped c := by
  obtain ⟨b, -, hc⟩ := List.mem_flatMap.mp h
  exact escaped_of_mem_encodeByte hc

theorem not_mem_encode {c : Char} (h : ¬ Escaped c) (s : String) : c ∉ encode s :=
  fun hc => h (escaped_of_mem_encode hc)

end Partition.Escape

end ChangeBuffer
