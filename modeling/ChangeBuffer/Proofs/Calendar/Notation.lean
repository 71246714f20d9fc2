import ChangeBuffer.Calendar.Notation
import ChangeBuffer.Proofs.Calendar.Gregorian
import ChangeBuffer.Proofs.Decimal.Numeral

/-! # Reading dates back

The texts of years, months, dates and hours are different for different years, months, dates and
hours, whatever the number of digits and the sign of the year.  A date is read back from its text.
-/

namespace ChangeBuffer.Calendar

open Numeral

/-- The date that is spelled by a year, which may be signed, and two digits each for the month and
the day. -/
def Date.read (cs : List Char) : Option Date :=
  match cs.reverse with
  | d :: d' :: '-' :: m :: m' :: '-' :: year =>
    match readInt year.reverse, readNat [m', m], readNat [d', d] with
    | some year, some month, some day => some ⟨year, month, day⟩
    | _, _, _ => none
  | _ => none

theorem readInt_yearText (year : Int) : readInt (yearText year) = some year := by
  unfold yearText
  split
  next hneg =>
    rw [List.singleton_append, readInt_minus_padded]
    exact congrArg some (by omega)
  next hpos =>
    split
    next =>
      rw [List.singleton_append, readInt_plus_padded]
      exact congrArg some (by omega)
    next =>
      rw [List.nil_append, readInt_padded]
      exact congrArg some (by omega)

theorem readInt_bareYearText (year : Int) : readInt (bareYearText year) = some year := by
  unfold bareYearText sign
  split
  next hneg =>
    rw [List.singleton_append, readInt_minus_padded]
    exact congrArg some (by omega)
  next hpos =>
    rw [List.nil_append, readInt_padded]
    exact congrArg some (by omega)

theorem bareYearText_inj {y y' : Int} (h : bareYearText y = bareYearText y') : y = y' := by
  have hread := congrArg readInt h
  rw [readInt_bareYearText, readInt_bareYearText] at hread
  exact Option.some.inj hread

theorem append_two_digits_inj {front front' : List Char} {n n' : Nat} (hn : n < 100)
    (hn' : n' < 100) (h : front ++ '-' :: padded 2 n = front' ++ '-' :: padded 2 n') :
    front = front' ∧ n = n' := by
  have hlength : ('-' :: padded 2 n).length = ('-' :: padded 2 n').length := by
    rw [List.length_cons, List.length_cons, length_padded Nat.two_pos hn,
      length_padded Nat.two_pos hn']
  obtain ⟨hfront, hback⟩ := List.append_inj' h hlength
  exact ⟨hfront, padded_inj (List.cons.inj hback).2⟩

namespace Date

variable {d d' : Date}

theorem Valid.month_lt (h : d.Valid) : d.month < 100 :=
  Nat.lt_of_le_of_lt h.month_le (by decide)

theorem Valid.day_lt (h : d.Valid) : d.day < 100 := by
  have hlength := (monthLengths_bounds _ _ (List.mem_of_getElem? h.getElem?_eq)).2
  exact Nat.lt_of_le_of_lt (Nat.le_trans h.day_le hlength) (by decide)

theorem read_text (h : d.Valid) : read d.text = some d := by
  obtain ⟨m', m, hm⟩ := List.length_eq_two.mp (length_padded Nat.two_pos h.month_lt)
  obtain ⟨e', e, he⟩ := List.length_eq_two.mp (length_padded Nat.two_pos h.day_lt)
  have hmonth := readNat_padded 2 d.month
  have hday := readNat_padded 2 d.day
  rw [hm] at hmonth
  rw [he] at hday
  have hreverse : d.text.reverse =
      e :: e' :: '-' :: m :: m' :: '-' :: (yearText d.year).reverse := by
    simp [text, hm, he]
  rw [read, hreverse]
  simp only [List.reverse_reverse, readInt_yearText, hmonth, hday]

theorem text_inj (h : d.Valid) (h' : d'.Valid) (htext : d.text = d'.text) : d = d' := by
  have hread := congrArg read htext
  rw [read_text h, read_text h'] at hread
  exact Option.some.inj hread

theorem bareMonthText_eq_iff (h : d.Valid) (h' : d'.Valid) :
    d.bareMonthText = d'.bareMonthText ↔ d.year = d'.year ∧ d.month = d'.month := by
  constructor
  · intro htext
    obtain ⟨hyear, hmonth⟩ := append_two_digits_inj h.month_lt h'.month_lt htext
    exact ⟨bareYearText_inj hyear, hmonth⟩
  · rintro ⟨hyear, hmonth⟩
    rw [bareMonthText, bareMonthText, hyear, hmonth]

end Date

theorem hourOf_lt (micros : Int) : hourOf micros < 24 := by
  unfold hourOf sinceMidnight dayMicros
  omega

theorem fdiv_hour (micros : Int) :
    micros.fdiv 3600000000 = 24 * dayOf micros + hourOf micros := by
  rw [Int.fdiv_eq_ediv_of_nonneg _ (by decide)]
  unfold hourOf sinceMidnight dayOf dayMicros
  omega

theorem fdiv_day (micros : Int) : micros.fdiv 86400000000 = dayOf micros :=
  Int.fdiv_eq_ediv_of_nonneg _ (by decide)

theorem fdiv_hour_eq_iff {micros micros' : Int} :
    micros.fdiv 3600000000 = micros'.fdiv 3600000000 ↔
      dayOf micros = dayOf micros' ∧ hourOf micros = hourOf micros' := by
  have hlt := hourOf_lt micros
  have hlt' := hourOf_lt micros'
  rw [fdiv_hour, fdiv_hour]
  omega

theorem hourText_eq_iff {micros micros' : Int} :
    hourText micros = hourText micros' ↔
      micros.fdiv 3600000000 = micros'.fdiv 3600000000 := by
  have hlt (micros : Int) : hourOf micros < 100 :=
    Nat.lt_of_lt_of_le (hourOf_lt micros) (by decide)
  rw [fdiv_hour_eq_iff]
  constructor
  · intro h
    obtain ⟨hdate, hhour⟩ := append_two_digits_inj (hlt _) (hlt _) h
    have hday := Date.text_inj (Date.valid_ofDay _) (Date.valid_ofDay _) hdate
    rw [← Date.toDay_ofDay (dayOf micros), hday, Date.toDay_ofDay]
    exact ⟨rfl, hhour⟩
  · rintro ⟨hday, hhour⟩
    rw [hourText, hourText, hday, hhour]

end ChangeBuffer.Calendar
