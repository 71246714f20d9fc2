import ChangeBuffer.Decimal.Numeral

/-! # Reading numerals back

A numeral is read back whatever zeros are in front of it, and an integer whatever its sign.
-/

namespace ChangeBuffer.Numeral

def readNat (cs : List Char) : Option Nat :=
  if !cs.isEmpty && cs.all Char.isDigit then some (Nat.ofDigitChars 10 cs 0) else none

/-- The integer that the digits spell, which may be signed. -/
def readInt : List Char → Option Int
  | '-' :: cs => (readNat cs).map fun n : Nat => -(n : Int)
  | '+' :: cs => (readNat cs).map Int.ofNat
  | cs => (readNat cs).map Int.ofNat

variable {width m n : Nat} {c : Char}

/-! ## Separators -/

section Separators

variable {front back : List Char}

theorem takeWhile_ne_append (h : c ∉ front) : (front ++ c :: back).takeWhile (· ≠ c) = front := by
  have hfront : ∀ d ∈ front, decide (d ≠ c) = true := fun d hd =>
    decide_eq_true (ne_of_mem_of_not_mem hd h)
  rw [List.takeWhile_append_of_pos hfront, List.takeWhile_cons_of_neg (by simp), List.append_nil]

theorem dropWhile_ne_append (h : c ∉ front) :
    (front ++ c :: back).dropWhile (· ≠ c) = c :: back := by
  have hfront : ∀ d ∈ front, decide (d ≠ c) = true := fun d hd =>
    decide_eq_true (ne_of_mem_of_not_mem hd h)
  rw [List.dropWhile_append_of_pos hfront, List.dropWhile_cons_of_neg (by simp)]

end Separators

/-! ## Numerals -/

theorem ofDigitChars_padded (width n : Nat) : Nat.ofDigitChars 10 (padded width n) 0 = n := by
  rw [padded, digits, Nat.ofDigitChars_append, Nat.ofDigitChars_replicate_zero, Nat.mul_zero,
    Nat.ofDigitChars_ten_toDigits]

theorem padded_inj (h : padded width m = padded width n) : m = n := by
  have hvalue := congrArg (Nat.ofDigitChars 10 · 0) h
  simpa only [ofDigitChars_padded] using hvalue

theorem isDigit_of_mem_padded (h : c ∈ padded width n) : c.isDigit := by
  rw [padded, List.mem_append] at h
  rcases h with hzero | hdigit
  · rw [List.eq_of_mem_replicate hzero]
    rfl
  · exact Nat.isDigit_of_mem_toDigits (by decide) (by decide) hdigit

theorem not_mem_padded (h : c.isDigit = false) : c ∉ padded width n := fun hc => by
  rw [isDigit_of_mem_padded hc] at h
  cases h

theorem padded_ne_nil (width n : Nat) : padded width n ≠ [] :=
  List.append_ne_nil_of_right_ne_nil _ Nat.toDigits_ne_nil

theorem length_padded (hwidth : 0 < width) (h : n < 10 ^ width) :
    (padded width n).length = width := by
  have hle : (digits n).length ≤ width := (Nat.length_toDigits_le_iff (by decide) hwidth).mpr h
  rw [padded, List.length_append, List.length_replicate, Nat.sub_add_cancel hle]

theorem readNat_of_isDigit {cs : List Char} (hne : cs ≠ []) (h : ∀ c ∈ cs, c.isDigit) :
    readNat cs = some (Nat.ofDigitChars 10 cs 0) := by
  rw [readNat, List.isEmpty_eq_false_iff.mpr hne, List.all_eq_true.mpr h]
  rfl

theorem readInt_of_isDigit {cs : List Char} (hne : cs ≠ []) (h : ∀ c ∈ cs, c.isDigit) :
    readInt cs = some (Nat.ofDigitChars 10 cs 0 : Int) := by
  have hread := readNat_of_isDigit hne h
  obtain ⟨c, cs, rfl⟩ := List.exists_cons_of_ne_nil hne
  have hdigit : c.isDigit := h c List.mem_cons_self
  rw [readInt, hread]
  · rfl
  · rintro cs' hcs
    obtain rfl := (List.cons.inj hcs).1
    exact absurd hdigit (by decide)
  · rintro cs' hcs
    obtain rfl := (List.cons.inj hcs).1
    exact absurd hdigit (by decide)

theorem readNat_padded (width n : Nat) : readNat (padded width n) = some n := by
  rw [readNat_of_isDigit (padded_ne_nil width n) fun c hc => isDigit_of_mem_padded hc,
    ofDigitChars_padded]

theorem readInt_padded (width n : Nat) : readInt (padded width n) = some (n : Int) := by
  rw [readInt_of_isDigit (padded_ne_nil width n) fun c hc => isDigit_of_mem_padded hc,
    ofDigitChars_padded]

theorem readInt_minus_padded (width n : Nat) :
    readInt ('-' :: padded width n) = some (-n : Int) := by
  rw [readInt, readNat_padded, Option.map_some]

theorem readInt_plus_padded (width n : Nat) :
    readInt ('+' :: padded width n) = some (n : Int) := by
  rw [readInt, readNat_padded, Option.map_some, Int.ofNat_eq_natCast]

end ChangeBuffer.Numeral
