import ChangeBuffer.Partition.Transform
import Mathlib

/-! # Rounding numbers down

Truncation to a width gives the largest multiple of the width up to a number, unless that is below
every word of the number's type.
-/

namespace ChangeBuffer.Partition

/-- The value is a number, kept as a word of so many bits. -/
inductive IsNumber : Value → Nat → Int → Prop
  | int (v : BitVec 32) : IsNumber (.int v) 32 v.toInt
  | long (v : BitVec 64) : IsNumber (.long v) 64 v.toInt
  | decimal (v : BitVec 128) : IsNumber (.decimal v) 128 v.toInt

variable {v : Value} {width bits : Nat} {n : Int} {type : ValueType}

namespace IsNumber

theorem unique {bits' : Nat} {n' : Int} (h : IsNumber v bits n) (h' : IsNumber v bits' n') :
    bits = bits' ∧ n = n' := by
  cases h <;> cases h' <;> exact ⟨rfl, rfl⟩

theorem isNull_eq (h : IsNumber v bits n) : v.isNull = false := by cases h <;> rfl

theorem bounds (h : IsNumber v bits n) : 0 < bits ∧ -2 ^ (bits - 1) ≤ n ∧ n < 2 ^ (bits - 1) := by
  cases h <;> exact ⟨by decide, BitVec.le_toInt _, BitVec.toInt_lt⟩

theorem conforms_eq {v' : Value} {n' : Int} (h : IsNumber v bits n) (h' : IsNumber v' bits n') :
    v'.conforms type = v.conforms type := by
  cases h <;> cases h' <;> cases type <;> rfl

theorem exists_of_le {m : Int} (h : IsNumber v bits n) (hlow : -2 ^ (bits - 1) ≤ m) (hle : m ≤ n) :
    ∃ v', IsNumber v' bits m := by
  have hlt : m < 2 ^ (bits - 1) := Int.lt_of_le_of_lt hle h.bounds.2.2
  have hword : (BitVec.ofInt bits m).toInt = m :=
    BitVec.toInt_ofInt_eq_self h.bounds.1 hlow hlt
  rw [← hword]
  cases h with
  | int => exact ⟨_, .int _⟩
  | long => exact ⟨_, .long _⟩
  | decimal => exact ⟨_, .decimal _⟩

end IsNumber

theorem fdiv_eq_ediv (n : Int) (width : Nat) : n.fdiv width = n / width :=
  Int.fdiv_eq_ediv_of_nonneg n (Int.natCast_nonneg width)

theorem sub_emod_eq (n : Int) (width : Nat) : n - n % width = width * n.fdiv width := by
  rw [fdiv_eq_ediv, Int.emod_def]
  omega

theorem fdiv_eq_iff {k : Int} (hwidth : 0 < width) :
    n.fdiv width = k ↔ k * width ≤ n ∧ n < (k + 1) * width := by
  have hpos : (0 : Int) < width := Int.natCast_pos.mpr hwidth
  rw [fdiv_eq_ediv]
  constructor
  · rintro rfl
    exact ⟨Int.ediv_mul_le n hpos.ne', Int.lt_ediv_add_one_mul_self n hpos⟩
  · rintro ⟨hle, hlt⟩
    exact le_antisymm (Int.lt_add_one_iff.mp (Int.ediv_lt_of_lt_mul hpos hlt))
      ((Int.le_ediv_iff_mul_le hpos).mpr hle)

theorem mul_fdiv_le (hwidth : 0 < width) (n : Int) : width * n.fdiv width ≤ n := by
  rw [mul_comm]
  exact ((fdiv_eq_iff hwidth).mp rfl).1

theorem fdiv_mul_fdiv (hwidth : 0 < width) (n : Int) :
    (width * n.fdiv width).fdiv width = n.fdiv width := by
  rw [fdiv_eq_ediv, Int.mul_ediv_cancel_left _ (Int.natCast_ne_zero.mpr hwidth.ne')]

theorem mul_fdiv_le_mul_fdiv {n' : Int} (hwidth : 0 < width) (h : n ≤ n') :
    width * n.fdiv width ≤ width * n'.fdiv width := by
  rw [fdiv_eq_ediv, fdiv_eq_ediv]
  exact Int.mul_le_mul_of_nonneg_left (Int.ediv_le_ediv (Int.natCast_pos.mpr hwidth) h)
    (Int.natCast_nonneg width)

theorem floorTo_eq (width bits : Nat) (n : Int) :
    floorTo width bits n =
      if -2 ^ (bits - 1) ≤ width * n.fdiv width then .ok (width * n.fdiv width)
      else .error .outOfRange := by
  unfold floorTo
  rw [sub_emod_eq]

theorem scaled_zero (n : Int) : Numeral.scaled n 0 = Numeral.ofInt n := by
  rw [Numeral.scaled, if_pos (Int.le_refl 0), Int.natAbs_zero, List.replicate_zero, List.append_nil]

/-- Numbers of every type are truncated alike and written with the decimal places of the type. -/
theorem truncateText_of_isNumber (hf : (Transform.truncate width).Fits type)
    (hc : v.conforms type = true) (hn : IsNumber v bits n) :
    truncateText width type v =
      (floorTo width bits n).map (Numeral.scaled · (scaleOf type)) := by
  have hplain (o : Except Refusal Int) : o.map Numeral.ofInt = o.map (Numeral.scaled · 0) := by
    cases o with
    | error e => rfl
    | ok n => rw [Except.map, Except.map, scaled_zero]
  cases hn with
  | int v =>
    cases type <;> try cases hc
    have hwidth : width < 2 ^ 31 := by
      have hbounded := hf.bounded
      simpa [Transform.excess?] using hbounded
    rw [truncateText, if_pos hwidth, hplain]
    rfl
  | long v =>
    cases type <;> try cases hc
    rw [truncateText, hplain]
    rfl
  | decimal v => rfl

end ChangeBuffer.Partition
