import ChangeBuffer.Proofs.Calendar.Notation

/-! # Reading moments back

A moment is read back from its date and its time of day to the microsecond, whether the fraction of
the second has no digits, three or six.
-/

namespace ChangeBuffer.Calendar

open Numeral

def readFraction : List Char → Option Nat
  | [] => some 0
  | '.' :: places => (readNat places).map (· * 10 ^ (6 - places.length))
  | _ => none

def readTime : List Char → Option Nat
  | h :: h' :: ':' :: m :: m' :: ':' :: s :: s' :: fraction =>
    match readNat [h, h'], readNat [m, m'], readNat [s, s'], readFraction fraction with
    | some h, some m, some s, some f => some (((h * 60 + m) * 60 + s) * 1000000 + f)
    | _, _, _, _ => none
  | _ => none

/-- The moment of a date and a time of day. -/
def readMoment (cs : List Char) : Option Int :=
  match cs.dropWhile (· ≠ 'T') with
  | [] => none
  | _ :: time =>
    match Date.read (cs.takeWhile (· ≠ 'T')), readTime time with
    | some d, some t => some (d.toDay * dayMicros + (t : Int))
    | _, _ => none

theorem readFraction_fractionText {n : Nat} (h : n < 1000000) :
    readFraction (fractionText n) = some n := by
  unfold fractionText
  split
  next hzero => rw [hzero, readFraction]
  next =>
    split
    next hmillis =>
      have hlength : (padded 3 (n / 1000)).length = 3 := length_padded (by decide) (by omega)
      rw [readFraction, readNat_padded, hlength, Option.map_some]
      exact congrArg some (by omega)
    next =>
      have hlength : (padded 6 n).length = 6 := length_padded (by decide) h
      rw [readFraction, readNat_padded, hlength, Option.map_some]
      exact congrArg some (by omega)

theorem exists_two_digits {n : Nat} (h : n < 100) :
    ∃ c c', padded 2 n = [c, c'] ∧ readNat [c, c'] = some n := by
  obtain ⟨c, c', hcs⟩ := List.length_eq_two.mp (length_padded Nat.two_pos h)
  have hread := readNat_padded 2 n
  rw [hcs] at hread
  exact ⟨c, c', hcs, hread⟩

theorem sinceMidnight_lt (micros : Int) : sinceMidnight micros < 86400000000 := by
  unfold sinceMidnight dayMicros
  omega

theorem readTime_timeText (micros : Int) :
    readTime (timeText micros) = some (sinceMidnight micros) := by
  have hlt := sinceMidnight_lt micros
  unfold timeText hourOf
  obtain ⟨t, ht⟩ : ∃ t, t = sinceMidnight micros := ⟨_, rfl⟩
  rw [← ht] at hlt ⊢
  obtain ⟨h, h', hhour, hreadHour⟩ := exists_two_digits (n := t / 3600000000) (by omega)
  obtain ⟨m, m', hminute, hreadMinute⟩ := exists_two_digits (n := t / 60000000 % 60) (by omega)
  obtain ⟨s, s', hsecond, hreadSecond⟩ := exists_two_digits (n := t / 1000000 % 60) (by omega)
  have hfraction := readFraction_fractionText (n := t % 1000000) (by omega)
  simp only [hhour, hminute, hsecond, List.cons_append, List.nil_append, readTime, hreadHour,
    hreadMinute, hreadSecond, hfraction]
  exact congrArg some (by omega)

theorem T_not_mem_text (d : Date) : 'T' ∉ d.text := by
  have hpadded (width n : Nat) : 'T' ∉ padded width n := not_mem_padded rfl
  have hyear : 'T' ∉ yearText d.year := by
    unfold yearText
    rw [List.mem_append]
    rintro (hsign | hdigit)
    · split at hsign
      · exact absurd hsign (by decide)
      · split at hsign <;> exact absurd hsign (by decide)
    · exact hpadded _ _ hdigit
  simp [Date.text, hyear, hpadded]

theorem readMoment_momentText (micros : Int) : readMoment (momentText micros) = some micros := by
  have hdate := T_not_mem_text (Date.ofDay (dayOf micros))
  simp only [readMoment, momentText, takeWhile_ne_append hdate, dropWhile_ne_append hdate,
    Date.read_text (Date.valid_ofDay _), readTime_timeText, Date.toDay_ofDay]
  refine congrArg some ?_
  unfold dayOf sinceMidnight dayMicros
  omega

end ChangeBuffer.Calendar
