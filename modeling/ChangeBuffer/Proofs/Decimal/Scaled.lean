import ChangeBuffer.Proofs.Decimal.Numeral
import Mathlib

/-! # Reading decimals back

An integer is read back from its numeral, and a scaled integer from its numeral with a point as the
integer divided by a power of ten.
-/

namespace ChangeBuffer.Numeral

/-- The number that is spelled by an integer, which may be signed, and perhaps a point and digits
behind it. -/
def readDecimal (cs : List Char) : Option ℚ :=
  let whole := cs.takeWhile (· ≠ '.')
  match cs.dropWhile (· ≠ '.') with
  | [] => (readInt whole).map fun n : Int => (n : ℚ)
  | _ :: places =>
    match readInt whole, readNat places, readInt (whole ++ places) with
    | some _, some _, some n => some ((n : ℚ) / 10 ^ places.length)
    | _, _, _ => none

variable {cs places : List Char} {n : Int}

theorem isDigit_ne_point {c : Char} (h : c.isDigit) : c ≠ '.' := by
  rintro rfl
  exact absurd h (by decide)

theorem readInt_sign_append (n : Int) (hne : cs ≠ []) (h : ∀ c ∈ cs, c.isDigit) :
    readInt (sign n ++ cs) =
      some (if n < 0 then -(Nat.ofDigitChars 10 cs 0 : Int) else Nat.ofDigitChars 10 cs 0) := by
  unfold sign
  split
  next => rw [List.singleton_append, readInt, readNat_of_isDigit hne h, Option.map_some]
  next => rw [List.nil_append, readInt_of_isDigit hne h]

theorem isDigit_of_mem_digits {c : Char} {n : Nat} (h : c ∈ digits n) : c.isDigit :=
  Nat.isDigit_of_mem_toDigits (by decide) (by decide) h

theorem digits_ne_nil (n : Nat) : digits n ≠ [] := Nat.toDigits_ne_nil

theorem ofDigitChars_digits (n : Nat) : Nat.ofDigitChars 10 (digits n) 0 = n :=
  Nat.ofDigitChars_ten_toDigits

theorem readInt_ofInt (n : Int) : readInt (ofInt n) = some n := by
  rw [ofInt, readInt_sign_append n (digits_ne_nil _) fun c hc => isDigit_of_mem_digits hc,
    ofDigitChars_digits]
  exact congrArg some (by omega)

theorem point_not_mem_sign (n : Int) : '.' ∉ sign n := by
  unfold sign
  split <;> decide

theorem readDecimal_of_readInt (hpoint : '.' ∉ cs) (h : readInt cs = some n) :
    readDecimal cs = some (n : ℚ) := by
  have hcs : ∀ c ∈ cs, decide (c ≠ '.') = true := fun c hc =>
    decide_eq_true (ne_of_mem_of_not_mem hc hpoint)
  have hdrop : cs.dropWhile (· ≠ '.') = [] := List.dropWhile_eq_nil_iff.mpr hcs
  have htake : cs.takeWhile (· ≠ '.') = cs := List.takeWhile_eq_self_iff.mpr hcs
  simp only [readDecimal, hdrop, htake, h, Option.map_some]

theorem readDecimal_point {m : Int} {k : Nat} (hpoint : '.' ∉ cs) (hm : readInt cs = some m)
    (hk : readNat places = some k) (h : readInt (cs ++ places) = some n) :
    readDecimal (cs ++ '.' :: places) = some ((n : ℚ) / 10 ^ places.length) := by
  simp only [readDecimal, takeWhile_ne_append hpoint, dropWhile_ne_append hpoint, hm, hk, h]

theorem le_length_padded (width n : Nat) : width ≤ (padded width n).length := by
  rw [padded, List.length_append, List.length_replicate]
  omega

theorem take_padded_ne_nil (scale n : Nat) :
    (padded (scale + 1) n).take ((padded (scale + 1) n).length - scale) ≠ [] := by
  have hwide := le_length_padded (scale + 1) n
  rw [Ne, List.take_eq_nil_iff]
  rintro (hzero | hnil)
  · omega
  · exact padded_ne_nil _ _ hnil

theorem length_drop_padded (scale n : Nat) :
    ((padded (scale + 1) n).drop ((padded (scale + 1) n).length - scale)).length = scale := by
  have hwide := le_length_padded (scale + 1) n
  rw [List.length_drop]
  omega

theorem isDigit_of_mem_digits_zeros {c : Char} {n zeros : Nat}
    (h : c ∈ digits n ++ List.replicate zeros '0') : c.isDigit := by
  rcases List.mem_append.mp h with hdigit | hzero
  · exact isDigit_of_mem_digits hdigit
  · rw [List.eq_of_mem_replicate hzero]
    rfl

theorem readDecimal_zeros (n : Int) (zeros : Nat) :
    readDecimal (ofInt n ++ List.replicate zeros '0') = some ((n : ℚ) * 10 ^ zeros) := by
  have hne : digits n.natAbs ++ List.replicate zeros '0' ≠ [] :=
    List.append_ne_nil_of_left_ne_nil (digits_ne_nil _) _
  have hdigits : ∀ c ∈ digits n.natAbs ++ List.replicate zeros '0', c.isDigit :=
    fun c hc => isDigit_of_mem_digits_zeros hc
  have hvalue : Nat.ofDigitChars 10 (digits n.natAbs ++ List.replicate zeros '0') 0 =
      10 ^ zeros * n.natAbs := by
    rw [Nat.ofDigitChars_append, ofDigitChars_digits, Nat.ofDigitChars_replicate_zero]
  have hread : readInt (ofInt n ++ List.replicate zeros '0') = some (n * 10 ^ zeros) := by
    rw [ofInt, List.append_assoc, readInt_sign_append n hne hdigits, hvalue]
    refine congrArg some ?_
    push_cast
    split
    next hneg => rw [abs_of_neg hneg]; ring
    next hpos => rw [abs_of_nonneg (not_lt.mp hpos)]; ring
  rw [ofInt, List.append_assoc] at hread ⊢
  rw [readDecimal_of_readInt ?_ hread]
  · push_cast
    rfl
  · rw [List.mem_append]
    rintro (hsign | hdigit)
    · exact point_not_mem_sign n hsign
    · exact isDigit_ne_point (hdigits _ hdigit) rfl

theorem readDecimal_places (n : Int) (scale : Nat) (hscale : 0 < scale) :
    let ds := padded (scale + 1) n.natAbs
    let point := ds.length - scale
    readDecimal (sign n ++ ds.take point ++ '.' :: ds.drop point) =
      some ((n : ℚ) / 10 ^ scale) := by
  intro ds point
  have hdigits : ∀ c ∈ ds, c.isDigit := fun c hc => isDigit_of_mem_padded hc
  have hplaces : (ds.drop point).length = scale := length_drop_padded scale n.natAbs
  have htake : ds.take point ≠ [] := take_padded_ne_nil scale n.natAbs
  have hdrop : ds.drop point ≠ [] := by
    rw [← List.length_pos_iff, hplaces]
    exact hscale
  have hwhole : readInt (sign n ++ ds.take point ++ ds.drop point) = some n := by
    rw [List.append_assoc, List.take_append_drop, readInt_sign_append n (padded_ne_nil _ _) hdigits,
      ofDigitChars_padded]
    exact congrArg some (by omega)
  have hpoint : '.' ∉ sign n ++ ds.take point := by
    rw [List.mem_append]
    rintro (hsign | hdigit)
    · exact point_not_mem_sign n hsign
    · exact isDigit_ne_point (hdigits _ (List.mem_of_mem_take hdigit)) rfl
  rw [readDecimal_point hpoint
    (readInt_sign_append n htake fun c hc => hdigits c (List.mem_of_mem_take hc))
    (readNat_of_isDigit hdrop fun c hc => hdigits c (List.mem_of_mem_drop hc)) hwhole, hplaces]

/-- A scaled integer is read back. -/
theorem readDecimal_scaled (n scale : Int) :
    readDecimal (scaled n scale) = some ((n : ℚ) * 10 ^ (-scale)) := by
  unfold scaled
  split
  next hle =>
    obtain ⟨k, rfl⟩ : ∃ k : Nat, scale = -(k : Int) := ⟨scale.natAbs, by omega⟩
    rw [Int.natAbs_neg, Int.natAbs_natCast, readDecimal_zeros, neg_neg, zpow_natCast]
  next hpos =>
    obtain ⟨k, rfl⟩ : ∃ k : Nat, scale = (k : Int) := ⟨scale.natAbs, by omega⟩
    rw [Int.toNat_natCast, zpow_neg, zpow_natCast, ← div_eq_mul_inv]
    exact readDecimal_places n k (by omega)

/-- A scaled integer is a sign if it is negative, at least one digit, and a point with as many
digits behind it as there are decimal places, if there are any. -/
theorem exists_scaled_eq (n scale : Int) :
    ∃ whole places : List Char,
      scaled n scale = sign n ++ whole ++ (if 0 < scale then '.' :: places else []) ∧
      whole ≠ [] ∧ (∀ c ∈ whole, c.isDigit) ∧ (∀ c ∈ places, c.isDigit) ∧
      places.length = scale.toNat := by
  by_cases hscale : 0 < scale
  · refine ⟨_, _, by rw [scaled, if_neg (Int.not_le.mpr hscale), if_pos hscale],
      take_padded_ne_nil scale.toNat n.natAbs, fun c hc => ?_, fun c hc => ?_,
      length_drop_padded scale.toNat n.natAbs⟩
    · exact isDigit_of_mem_padded (List.mem_of_mem_take hc)
    · exact isDigit_of_mem_padded (List.mem_of_mem_drop hc)
  · have hle : scale ≤ 0 := Int.not_lt.mp hscale
    refine ⟨digits n.natAbs ++ List.replicate scale.natAbs '0', [], ?_,
      List.append_ne_nil_of_left_ne_nil (digits_ne_nil _) _,
      fun c hc => isDigit_of_mem_digits_zeros hc, List.forall_mem_nil _, ?_⟩
    · rw [scaled, if_pos hle, if_neg hscale, ofInt, List.append_nil, List.append_assoc]
    · rw [Int.toNat_of_nonpos hle, List.length_nil]

theorem scaled_inj {m scale : Int} (h : scaled m scale = scaled n scale) : m = n := by
  have hread := congrArg readDecimal h
  rw [readDecimal_scaled, readDecimal_scaled, Option.some.injEq] at hread
  have hpow : (10 : ℚ) ^ (-scale) ≠ 0 := zpow_ne_zero _ (by norm_num)
  exact_mod_cast mul_right_cancel₀ hpow hread

end ChangeBuffer.Numeral
