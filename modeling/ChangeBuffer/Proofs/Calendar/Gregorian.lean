import ChangeBuffer.Calendar.Basic
import Mathlib.Algebra.BigOperators.Group.List.Basic
import Mathlib.Order.Monotone.Basic

/-! # Dates of days

Day 0 is 1970-01-01, and the date of the next day is the next date.  The dates of all days are
determined by this, before and after day 0, and every date is the date of one day.
-/

namespace ChangeBuffer.Calendar

variable {n year : Int}

theorem sum_monthLengths (leap : Bool) : (monthLengths leap).sum = if leap then 366 else 365 := by
  cases leap <;> rfl

theorem length_monthLengths (leap : Bool) : (monthLengths leap).length = 12 := rfl

theorem monthLengths_bounds (leap : Bool) : ∀ len ∈ monthLengths leap, 0 < len ∧ len ≤ 31 := by
  cases leap <;> decide

theorem getElem?_monthLengths {month : Nat} (hpos : 0 < month) (hle : month ≤ 12) (leap : Bool) :
    (monthLengths leap)[month - 1]? = some ((monthLengths leap).getD (month - 1) 0) := by
  have hlt : month - 1 < (monthLengths leap).length :=
    Nat.lt_of_lt_of_le (Nat.sub_lt hpos Nat.one_pos) hle
  rw [List.getD_eq_getElem?_getD, List.getElem?_eq_getElem hlt, Option.getD_some]

theorem isLeap_iff : isLeap year = true ↔ year % 4 = 0 ∧ (year % 100 ≠ 0 ∨ year % 400 = 0) := by
  simp [isLeap]

theorem yearStart_succ (year : Int) :
    yearStart (year + 1) = yearStart year + (monthLengths (isLeap year)).sum := by
  rw [sum_monthLengths]
  unfold yearStart
  split
  next hleap =>
    rw [isLeap_iff] at hleap
    omega
  next hleap =>
    rw [isLeap_iff] at hleap
    omega

theorem yearStart_lt_iff {y y' : Int} : yearStart y < yearStart y' ↔ y < y' := by
  have hmono : StrictMono yearStart := by
    refine strictMono_int_of_lt_succ fun year => ?_
    rw [yearStart_succ, sum_monthLengths]
    split <;> omega
  exact hmono.lt_iff_lt

theorem yearStart_le_iff {y y' : Int} : yearStart y ≤ yearStart y' ↔ y ≤ y' := by
  rw [← Int.not_lt, yearStart_lt_iff, Int.not_lt]

theorem yearStart_yearOf (n : Int) : yearStart (yearOf n) ≤ n ∧ n < yearStart (yearOf n + 1) := by
  simp only [yearOf]
  obtain ⟨guess, hguess⟩ : ∃ guess, guess = 1970 + 400 * n / 146097 := ⟨_, rfl⟩
  rw [← hguess]
  split
  next hlt =>
    rw [Int.sub_add_cancel]
    refine ⟨?_, hlt⟩
    unfold yearStart
    omega
  next hle =>
    split
    next hnext =>
      refine ⟨hnext, ?_⟩
      unfold yearStart
      omega
    next hnext => exact ⟨Int.not_lt.mp hle, Int.not_le.mp hnext⟩

theorem yearOf_eq (h : yearStart year ≤ n) (h' : n < yearStart (year + 1)) : yearOf n = year := by
  obtain ⟨hstart, hend⟩ := yearStart_yearOf n
  have hlt := yearStart_lt_iff.mp (Int.lt_of_le_of_lt hstart h')
  have hgt := yearStart_lt_iff.mp (Int.lt_of_le_of_lt h hend)
  omega

section Months

variable {lens : List Nat} {i j k len : Nat}

theorem splitMonths_eq (month : Nat) (hi : lens[i]? = some len) (hj : j < len) :
    splitMonths month ((lens.take i).sum + j) lens = (month + i, j + 1) := by
  induction lens generalizing month i with
  | nil => cases hi
  | cons first lens ih =>
    cases i with
    | zero =>
      obtain rfl : first = len := by simpa using hi
      simp [splitMonths, hj]
    | succ i =>
      have hrest : ¬ first + (lens.take i).sum + j < first := by omega
      rw [List.take_succ_cons, List.sum_cons, splitMonths, if_neg hrest, Nat.add_assoc,
        Nat.add_sub_cancel_left, ih (month + 1) (by simpa using hi)]
      simp [Nat.add_assoc, Nat.add_comm 1 i]

theorem exists_split (h : k < lens.sum) :
    ∃ i len j, lens[i]? = some len ∧ j < len ∧ k = (lens.take i).sum + j := by
  induction lens generalizing k with
  | nil => cases h
  | cons first lens ih =>
    by_cases hk : k < first
    · exact ⟨0, first, k, rfl, hk, by simp⟩
    · rw [List.sum_cons] at h
      obtain ⟨i, len, j, hi, hj, hsum⟩ := ih (k := k - first) (by omega)
      refine ⟨i + 1, len, j, by simpa using hi, hj, ?_⟩
      rw [List.take_succ_cons, List.sum_cons]
      omega

end Months

namespace Date

def monthLength (d : Date) : Nat := (monthLengths (isLeap d.year)).getD (d.month - 1) 0

structure Valid (d : Date) : Prop where
  month_pos : 0 < d.month
  month_le : d.month ≤ 12
  day_pos : 0 < d.day
  day_le : d.day ≤ d.monthLength

/-- The date that follows a date: the next day of its month, else the first day of the next month,
else the first day of the next year. -/
def next (d : Date) : Date :=
  if d.day < d.monthLength then ⟨d.year, d.month, d.day + 1⟩
  else if d.month < 12 then ⟨d.year, d.month + 1, 1⟩
  else ⟨d.year + 1, 1, 1⟩

variable {d : Date}

def daysBefore (d : Date) : Nat := ((monthLengths (isLeap d.year)).take (d.month - 1)).sum

theorem Valid.getElem?_eq (h : d.Valid) :
    (monthLengths (isLeap d.year))[d.month - 1]? = some d.monthLength :=
  getElem?_monthLengths h.month_pos h.month_le _

theorem Valid.toDay_eq (h : d.Valid) :
    d.toDay = yearStart d.year + (d.daysBefore + (d.day - 1) : Nat) := by
  have hpos := h.day_pos
  rw [toDay, daysBefore]
  omega

theorem Valid.sum_take (h : d.Valid) :
    ((monthLengths (isLeap d.year)).take d.month).sum = d.daysBefore + d.monthLength := by
  obtain ⟨month, hmonth⟩ := Nat.exists_eq_add_one.mpr h.month_pos
  have hlen := h.getElem?_eq
  rw [daysBefore]
  rw [hmonth, Nat.add_sub_cancel] at hlen ⊢
  rw [List.take_add_one, hlen, List.sum_append, Option.toList_some, List.sum_singleton]

theorem Valid.daysBefore_add_le (h : d.Valid) :
    d.daysBefore + d.monthLength ≤ (monthLengths (isLeap d.year)).sum := by
  rw [← h.sum_take, ← List.sum_take_add_sum_drop (monthLengths (isLeap d.year)) d.month]
  exact Nat.le_add_right _ _

theorem Valid.yearOf_toDay (h : d.Valid) : yearOf d.toDay = d.year := by
  have hday := h.day_le
  have hpos := h.day_pos
  have hmonths := h.daysBefore_add_le
  apply yearOf_eq
  · rw [h.toDay_eq]
    omega
  · rw [h.toDay_eq, yearStart_succ]
    omega

theorem Valid.ofDay_toDay (h : d.Valid) : ofDay d.toDay = d := by
  have hday : d.day - 1 < d.monthLength :=
    Nat.lt_of_lt_of_le (Nat.sub_lt h.day_pos Nat.one_pos) h.day_le
  have hoffset : (d.toDay - yearStart d.year).toNat = d.daysBefore + (d.day - 1) := by
    rw [h.toDay_eq]
    omega
  rw [ofDay, h.yearOf_toDay, hoffset, daysBefore, splitMonths_eq 1 h.getElem?_eq hday,
    Nat.add_sub_cancel' h.month_pos, Nat.sub_add_cancel h.day_pos]

theorem exists_valid_toDay_eq (n : Int) : ∃ d : Date, d.Valid ∧ d.toDay = n := by
  obtain ⟨hstart, hend⟩ := yearStart_yearOf n
  rw [yearStart_succ] at hend
  have hlt : (n - yearStart (yearOf n)).toNat < (monthLengths (isLeap (yearOf n))).sum := by omega
  obtain ⟨i, len, j, hi, hj, hsplit⟩ := exists_split hlt
  have hmonth : 1 + i ≤ 12 := by
    rw [← length_monthLengths (isLeap (yearOf n)), Nat.add_comm]
    exact (List.getElem?_eq_some_iff.mp hi).1
  have hvalid : Valid ⟨yearOf n, 1 + i, j + 1⟩ := by
    refine ⟨Nat.lt_add_right i Nat.one_pos, hmonth, Nat.succ_pos j, ?_⟩
    rw [monthLength, List.getD_eq_getElem?_getD, Nat.add_sub_cancel_left, hi]
    exact hj
  refine ⟨_, hvalid, ?_⟩
  rw [hvalid.toDay_eq, daysBefore, Nat.add_sub_cancel_left, Nat.add_sub_cancel, ← hsplit]
  dsimp only
  omega

theorem valid_ofDay (n : Int) : (ofDay n).Valid := by
  obtain ⟨d, hvalid, rfl⟩ := exists_valid_toDay_eq n
  rw [hvalid.ofDay_toDay]
  exact hvalid

theorem toDay_ofDay (n : Int) : (ofDay n).toDay = n := by
  obtain ⟨d, hvalid, rfl⟩ := exists_valid_toDay_eq n
  rw [hvalid.ofDay_toDay]

theorem valid_first {month : Nat} (hpos : 0 < month) (hle : month ≤ 12) (year : Int) :
    Valid ⟨year, month, 1⟩ := by
  refine ⟨hpos, hle, Nat.one_pos, ?_⟩
  exact (monthLengths_bounds _ _ (List.mem_of_getElem? (getElem?_monthLengths hpos hle _))).1

theorem Valid.next (h : d.Valid) : d.next.Valid := by
  unfold Date.next
  split
  next hmore => exact ⟨h.month_pos, h.month_le, Nat.succ_pos _, hmore⟩
  next =>
    split
    next hmonth => exact valid_first (Nat.succ_pos _) hmonth _
    next => exact valid_first Nat.one_pos (by decide) _

/-- The next date is that of the next day. -/
theorem Valid.toDay_next (h : d.Valid) : d.next.toDay = d.toDay + 1 := by
  have hday := h.day_pos
  unfold Date.next
  split
  next =>
    simp only [toDay]
    omega
  next hlast =>
    have hlast : d.day = d.monthLength := Nat.le_antisymm h.day_le (Nat.not_lt.mp hlast)
    split
    next =>
      rw [h.toDay_eq, toDay, Nat.add_sub_cancel, h.sum_take]
      dsimp only
      omega
    next hmonth =>
      have hmonth : d.month = 12 := Nat.le_antisymm h.month_le (Nat.not_lt.mp hmonth)
      have hsum := h.sum_take
      rw [hmonth, List.take_of_length_le (Nat.le_of_eq (length_monthLengths _))] at hsum
      rw [h.toDay_eq, toDay, yearStart_succ, hsum, Nat.sub_self, List.take_zero, List.sum_nil]
      dsimp only
      omega

theorem ofDay_succ (n : Int) : ofDay (n + 1) = (ofDay n).next := by
  have hvalid := valid_ofDay n
  rw [← hvalid.next.ofDay_toDay, hvalid.toDay_next, toDay_ofDay]

end Date

open Date

/-- The day falls on the date.  Nothing is said but that day 0 is 1970-01-01 and that the day after
a day falls on the next date. -/
inductive Falls : Int → Date → Prop
  | epoch : Falls 0 ⟨1970, 1, 1⟩
  | next {n : Int} {d : Date} : Falls n d → Falls (n + 1) d.next
  | previous {n : Int} {d : Date} : d.Valid → Falls (n + 1) d.next → Falls n d

theorem falls_ofDay (n : Int) : Falls n (ofDay n) := by
  induction n with
  | zero => exact .epoch
  | succ n ih =>
    rw [ofDay_succ]
    exact ih.next
  | pred n ih =>
    refine .previous (valid_ofDay _) ?_
    rw [← ofDay_succ, Int.sub_add_cancel]
    exact ih

/-- Every day falls on one date, the one that is computed for it. -/
theorem falls_iff {d : Date} : Falls n d ↔ d = ofDay n := by
  constructor
  · intro h
    have hday : d.Valid ∧ d.toDay = n := by
      induction h with
      | epoch => exact ⟨valid_first Nat.one_pos (by decide) _, by decide⟩
      | next _ ih => exact ⟨ih.1.next, by rw [ih.1.toDay_next, ih.2]⟩
      | previous hvalid _ ih =>
        refine ⟨hvalid, ?_⟩
        have hnext := ih.2
        rw [hvalid.toDay_next] at hnext
        omega
    rw [← hday.2, hday.1.ofDay_toDay]
  · rintro rfl
    exact falls_ofDay n

example : Falls (-719469) ⟨0, 2, 29⟩ := falls_iff.mpr (by decide)

theorem inRange_iff (n : Int) :
    inRange n = true ↔ firstYear ≤ (ofDay n).year ∧ (ofDay n).year ≤ lastYear := by
  obtain ⟨hstart, hend⟩ := yearStart_yearOf n
  have hfirst : yearStart firstYear ≤ n ↔ firstYear ≤ yearOf n := by
    constructor
    · intro h
      exact Int.lt_add_one_iff.mp (yearStart_lt_iff.mp (Int.lt_of_le_of_lt h hend))
    · intro h
      exact Int.le_trans (yearStart_le_iff.mpr h) hstart
  have hlast : n < yearStart (lastYear + 1) ↔ yearOf n ≤ lastYear := by
    constructor
    · intro h
      exact Int.lt_add_one_iff.mp (yearStart_lt_iff.mp (Int.lt_of_le_of_lt hstart h))
    · intro h
      exact Int.lt_of_lt_of_le hend (yearStart_le_iff.mpr (Int.add_le_add_right h 1))
  rw [inRange, Bool.and_eq_true, decide_eq_true_eq, decide_eq_true_eq, hfirst, hlast, ofDay]

end ChangeBuffer.Calendar
