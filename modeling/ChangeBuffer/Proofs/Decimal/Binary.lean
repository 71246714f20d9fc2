import ChangeBuffer.Decimal.Binary
import Mathlib

/-! # Numbers of binary formats

Two floating-point numbers are equal exactly if they have the same bits and are numbers, or if both
are zero: a number has one significand and one power of two, as a significand that is not normal
goes with the lowest power only, and the sign of a zero means nothing.
-/

namespace ChangeBuffer.Binary

/-- The number that a finite reading stands for. -/
def finiteValue (negative : Bool) (m : Nat) (q : Int) : ℚ :=
  (if negative then -(m : ℚ) else m) * 2 ^ q

/-- Both readings stand for the same number, or the same infinity.  What is no number is not even
equal to itself. -/
def Reading.Equals : Reading → Reading → Prop
  | .finite s m q _, .finite s' m' q' _ => finiteValue s m q = finiteValue s' m' q'
  | .infinite s, .infinite s' => s = s'
  | _, _ => False

/-- A number has one significand and one power of two, if the significand is normal or the power the
lowest. -/
theorem significand_unique {width m m' k k' : Nat} (h : m * 2 ^ k = m' * 2 ^ k')
    (hm : m < 2 ^ (width + 1)) (hm' : m' < 2 ^ (width + 1)) (hk : 2 ^ width ≤ m ∨ k = 0)
    (hk' : 2 ^ width ≤ m' ∨ k' = 0) : m = m' ∧ k = k' := by
  wlog hle : k ≤ k' generalizing m m' k k'
  · obtain ⟨rfl, rfl⟩ := this h.symm hm' hm hk' hk (by omega)
    exact ⟨rfl, rfl⟩
  obtain ⟨d, rfl⟩ := Nat.exists_eq_add_of_le hle
  have hvalue : m = m' * 2 ^ d := by
    rw [pow_add, mul_left_comm, mul_comm] at h
    exact Nat.eq_of_mul_eq_mul_left (Nat.two_pow_pos k) h
  cases d with
  | zero => exact ⟨by simpa using hvalue, rfl⟩
  | succ d =>
    have hnormal : 2 ^ width ≤ m' := hk'.resolve_right (by omega)
    have hlarge : 2 ^ (width + 1) ≤ m := calc
      2 ^ (width + 1) = 2 ^ width * 2 := pow_succ 2 width
      _ ≤ m' * 2 ^ (d + 1) := Nat.mul_le_mul hnormal (Nat.le_self_pow (by omega) 2)
      _ = m := hvalue.symm
    omega

theorem finiteValue_eq_iff {s s' : Bool} {m m' k k' : Nat} {lowest : Int} :
    finiteValue s m (lowest + k) = finiteValue s' m' (lowest + k') ↔
      m * 2 ^ k = m' * 2 ^ k' ∧ (s = s' ∨ m = 0) := by
  have hscale : (2 : ℚ) ^ lowest ≠ 0 := zpow_ne_zero _ (by norm_num)
  have hvalue (s : Bool) (m k : Nat) :
      finiteValue s m (lowest + k) =
        ((if s then -(m * 2 ^ k : Nat) else (m * 2 ^ k : Nat) : Int) : ℚ) * 2 ^ lowest := by
    rw [finiteValue, zpow_add₀ (by norm_num), zpow_natCast]
    split <;> push_cast <;> ring
  have hzero : m * 2 ^ k = 0 ↔ m = 0 := by simp
  rw [hvalue, hvalue, mul_left_inj' hscale, Int.cast_inj, ← hzero]
  generalize m * 2 ^ k = x
  generalize m' * 2 ^ k' = y
  cases s <;> cases s' <;> simp <;> omega

namespace Format

variable {f : Format} {a b : Nat}

def IsWord (f : Format) (bits : Nat) : Prop := bits < 2 ^ (f.fractionBits + f.exponentBits + 1)

def significand (f : Format) (bits : Nat) : Nat :=
  if f.exponent bits = 0 then f.fraction bits else 2 ^ f.fractionBits + f.fraction bits

def scale (f : Format) (bits : Nat) : Nat := f.exponent bits - 1

theorem fraction_lt (f : Format) (bits : Nat) : f.fraction bits < 2 ^ f.fractionBits :=
  Nat.mod_lt _ (Nat.two_pow_pos _)

theorem significand_lt (f : Format) (bits : Nat) :
    f.significand bits < 2 ^ (f.fractionBits + 1) := by
  have hfraction := f.fraction_lt bits
  unfold significand
  split <;> omega

theorem normal_or_lowest (f : Format) (bits : Nat) :
    2 ^ f.fractionBits ≤ f.significand bits ∨ f.scale bits = 0 := by
  unfold significand scale
  split <;> omega

theorem significand_eq_zero_iff : f.significand a = 0 ↔ f.isZero a := by
  have hpos := Nat.two_pow_pos f.fractionBits
  unfold significand isZero
  split
  next h => simp [h]
  next h => simp [h]

theorem word_inj (ha : f.IsWord a) (hb : f.IsWord b) (hsign : f.negative a = f.negative b)
    (hexponent : f.exponent a = f.exponent b) (hfraction : f.fraction a = f.fraction b) :
    a = b := by
  have hlt {n : Nat} (hn : f.IsWord n) : n / 2 ^ (f.fractionBits + f.exponentBits) < 2 :=
    Nat.div_lt_of_lt_mul (by rwa [← pow_succ])
  have htop : a / 2 ^ (f.fractionBits + f.exponentBits) =
      b / 2 ^ (f.fractionBits + f.exponentBits) := by
    have hlta := hlt ha
    have hltb := hlt hb
    simp only [negative, decide_eq_decide] at hsign
    generalize a / 2 ^ (f.fractionBits + f.exponentBits) = x at *
    generalize b / 2 ^ (f.fractionBits + f.exponentBits) = y at *
    omega
  have hupper : a / 2 ^ f.fractionBits = b / 2 ^ f.fractionBits := by
    rw [pow_add, ← Nat.div_div_eq_div_mul, ← Nat.div_div_eq_div_mul] at htop
    rw [← Nat.div_add_mod (a / 2 ^ f.fractionBits) (2 ^ f.exponentBits), htop]
    exact (congrArg _ hexponent).trans (Nat.div_add_mod _ _)
  rw [← Nat.div_add_mod a (2 ^ f.fractionBits), hupper]
  exact (congrArg _ hfraction).trans (Nat.div_add_mod _ _)

theorem word_inj_of_significand (ha : f.IsWord a) (hb : f.IsWord b)
    (hsign : f.negative a = f.negative b) (hm : f.significand a = f.significand b)
    (hk : f.scale a = f.scale b) : a = b := by
  have hfraction := f.fraction_lt a
  have hfraction' := f.fraction_lt b
  have hfields : f.exponent a = f.exponent b ∧ f.fraction a = f.fraction b := by
    unfold significand at hm
    unfold scale at hk
    split at hm <;> split at hm <;> omega
  exact word_inj ha hb hsign hfields.1 hfields.2

theorem exists_read_eq (h : f.exponent a ≠ 2 ^ f.exponentBits - 1) :
    ∃ narrow,
      f.read a = .finite (f.negative a) (f.significand a) (f.lowest + f.scale a) narrow := by
  unfold read
  rw [if_neg h]
  split
  next hzero => exact ⟨false, by simp [significand, scale, hzero]⟩
  next hpos =>
    have hscale : ((f.exponent a - 1 : Nat) : Int) = f.exponent a - 1 := by omega
    exact ⟨_, by rw [significand, if_neg hpos, scale, hscale]⟩

theorem isNaN_iff :
    f.isNaN a ↔ f.exponent a = 2 ^ f.exponentBits - 1 ∧ f.fraction a ≠ 0 := by
  simp [isNaN]

theorem exponent_of_isZero (hf : 0 < f.exponentBits) (h : f.isZero a) :
    f.exponent a ≠ 2 ^ f.exponentBits - 1 := by
  have hpow : 2 ≤ 2 ^ f.exponentBits := Nat.le_self_pow (by omega) 2
  simp only [isZero, Bool.and_eq_true, decide_eq_true_eq] at h
  omega

theorem finiteValue_read_eq_iff (ha : f.IsWord a) (hb : f.IsWord b) :
    finiteValue (f.negative a) (f.significand a) (f.lowest + f.scale a) =
        finiteValue (f.negative b) (f.significand b) (f.lowest + f.scale b) ↔
      a = b ∨ f.isZero a ∧ f.isZero b := by
  rw [finiteValue_eq_iff, ← significand_eq_zero_iff, ← significand_eq_zero_iff]
  constructor
  · rintro ⟨hvalue, hsign⟩
    obtain ⟨hm, hk⟩ := significand_unique hvalue (f.significand_lt a) (f.significand_lt b)
      (f.normal_or_lowest a) (f.normal_or_lowest b)
    obtain hsign | hzero := hsign
    · exact .inl (word_inj_of_significand ha hb hsign hm hk)
    · exact .inr ⟨hzero, hm ▸ hzero⟩
  · rintro (rfl | ⟨hzero, hzero'⟩)
    · exact ⟨rfl, .inl rfl⟩
    · exact ⟨by simp [hzero, hzero'], .inr hzero⟩

theorem nonfinite_read_equals_iff (ha : f.IsWord a) (hb : f.IsWord b)
    (hea : f.exponent a = 2 ^ f.exponentBits - 1) (heb : f.exponent b = 2 ^ f.exponentBits - 1) :
    (f.read a).Equals (f.read b) ↔ a = b ∧ ¬ f.isNaN a := by
  rw [read, read, if_pos hea, if_pos heb, isNaN_iff]
  by_cases hfa : f.fraction a = 0
  · by_cases hfb : f.fraction b = 0
    · have hword : f.negative a = f.negative b ↔ a = b :=
        ⟨fun hsign => word_inj ha hb hsign (hea.trans heb.symm) (hfa.trans hfb.symm),
          fun h => h ▸ rfl⟩
      simpa [Reading.Equals, hfa, hfb] using hword
    · have hne : a ≠ b := by rintro rfl; exact hfb hfa
      simp [Reading.Equals, hfa, hfb, hne]
  · simp [Reading.Equals, hea, hfa]

theorem not_read_equals (hea : f.exponent a = 2 ^ f.exponentBits - 1)
    (heb : f.exponent b ≠ 2 ^ f.exponentBits - 1) :
    ¬ (f.read a).Equals (f.read b) ∧ ¬ (f.read b).Equals (f.read a) := by
  obtain ⟨narrow, hread⟩ := exists_read_eq heb
  rw [hread, read, if_pos hea]
  split <;> simp [Reading.Equals]

/-- Two words are equal as numbers exactly if they are the same and no NaN, or zeros of any sign. -/
theorem read_equals_iff (hf : 0 < f.exponentBits) (ha : f.IsWord a) (hb : f.IsWord b) :
    (f.read a).Equals (f.read b) ↔ a = b ∧ ¬ f.isNaN a ∨ f.isZero a ∧ f.isZero b := by
  by_cases hea : f.exponent a = 2 ^ f.exponentBits - 1 <;>
    by_cases heb : f.exponent b = 2 ^ f.exponentBits - 1
  · have hza : ¬ f.isZero a := fun h => exponent_of_isZero hf h hea
    rw [nonfinite_read_equals_iff ha hb hea heb, or_iff_left fun h => hza h.1]
  · have hza : ¬ f.isZero a := fun h => exponent_of_isZero hf h hea
    have hne : a ≠ b := by rintro rfl; exact heb hea
    simp [(not_read_equals hea heb).1, hza, hne]
  · have hzb : ¬ f.isZero b := fun h => exponent_of_isZero hf h heb
    have hne : a ≠ b := by rintro rfl; exact hea heb
    simp [(not_read_equals heb hea).2, hzb, hne]
  · obtain ⟨narrow, hra⟩ := exists_read_eq hea
    obtain ⟨narrow', hrb⟩ := exists_read_eq heb
    have hnan : ¬ f.isNaN a := fun h => hea (isNaN_iff.mp h).1
    rw [hra, hrb, Reading.Equals, finiteValue_read_eq_iff ha hb, and_iff_left hnan]

end Format

end ChangeBuffer.Binary
