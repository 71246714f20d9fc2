import ChangeBuffer.Proofs.Decimal.Scaled
import ChangeBuffer.Proofs.Partition.Floors

/-! # Transforms in words

The numbers of values are signed words, and a step on words may have no result: a remainder by zero,
a sum or difference that is no word, or a length below zero.  In the transforms that fields have
every step has a result or is known to have none, and the texts are those of integers of any size.
-/

namespace ChangeBuffer.Partition

section Steps

variable {n : Nat}

/-- The remainder that is not negative.  There is none by zero, and none of the least word by -1, as
the quotient of these is no word. -/
def remainder? (v w : BitVec n) : Option (BitVec n) :=
  if w = 0 ∨ v = BitVec.intMin n ∧ w = -1#n then none
  else
    let m := v.srem w
    some (if m.slt 0 then m + w.abs else m)

def sum? (v w : BitVec n) : Option (BitVec n) := if v.saddOverflow w then none else some (v + w)

def difference? (v w : BitVec n) : Option (BitVec n) :=
  if v.ssubOverflow w then none else some (v - w)

def lengthBehind? (length front : Nat) : Option Nat :=
  if front ≤ length then some (length - front) else none

theorem lengthBehind?_of_le {length front : Nat} (h : front ≤ length) :
    lengthBehind? length front = some (length - front) := if_pos h

theorem exists_remainder? {w : BitVec n} (hw : 0 < w.toInt) (v : BitVec n) :
    ∃ m, remainder? v w = some m ∧ m.toInt = v.toInt % w.toInt := by
  have hzero : w ≠ 0 := by
    rintro rfl
    simp at hw
  have hminus : w ≠ -1#n := by
    rintro rfl
    rw [BitVec.neg_one_eq_allOnes, BitVec.toInt_allOnes] at hw
    split at hw <;> omega
  have habs : w.abs = w := by
    rw [BitVec.abs, BitVec.msb_eq_toInt, decide_eq_false (by omega)]
    rfl
  have hnonneg := Int.emod_nonneg v.toInt hw.ne'
  have hlt := Int.emod_lt_of_pos v.toInt hw
  have htmod : (v.srem w).toInt = v.toInt.tmod w.toInt := BitVec.toInt_srem v w
  rw [Int.tmod_eq_emod] at htmod
  refine ⟨_, if_neg ?_, ?_⟩
  · rintro (h | ⟨-, h⟩)
    · exact hzero h
    · exact hminus h
  · simp only [BitVec.slt_iff_toInt_lt, BitVec.ofNat_eq_ofNat, BitVec.toInt_zero, habs]
    split
    next hneg =>
      have hfits : ¬ (v.srem w).saddOverflow w = true := by
        have hle := BitVec.le_toInt (v.srem w)
        have hge := w.toInt_lt
        simp only [BitVec.saddOverflow, Bool.or_eq_true, decide_eq_true_eq]
        split at htmod <;> omega
      rw [BitVec.toInt_add_of_not_saddOverflow hfits]
      split at htmod <;> omega
    next => split at htmod <;> omega

theorem toInt_ofNat_of_lt {width : Nat} (hpos : 0 < width) (hlt : width < 2 ^ (n - 1)) :
    (BitVec.ofNat n width).toInt = width := by
  obtain ⟨k, rfl⟩ : ∃ k, n = k + 1 := Nat.exists_eq_succ_of_ne_zero (by rintro rfl; omega)
  rw [Nat.add_sub_cancel] at hlt
  rw [BitVec.toInt_ofNat']
  apply Int.bmod_eq_of_le <;> rw [pow_succ] <;> omega

/-- The word rounded down to a multiple of the width.  The outer result is missing if a step has
none, the inner one if the multiple is no word. -/
def floor? (width v : BitVec n) : Option (Option (BitVec n)) :=
  (remainder? v width).map (difference? v)

theorem floor?_eq {width : Nat} (hpos : 0 < width) (hlt : width < 2 ^ (n - 1)) (v : BitVec n) :
    ∃ result, floor? (BitVec.ofNat n width) v = some result ∧
      floorTo width n v.toInt = result.elim (.error .outOfRange) fun m => .ok m.toInt := by
  have hwidth := toInt_ofNat_of_lt hpos hlt
  obtain ⟨m, hm, hvalue⟩ := exists_remainder? (w := BitVec.ofNat n width) (by omega) v
  rw [hwidth] at hvalue
  have hnonneg := Int.emod_nonneg v.toInt (b := width) (by omega)
  have hle := BitVec.le_toInt v
  have hge := v.toInt_lt
  refine ⟨difference? v m, by rw [floor?, hm, Option.map_some], ?_⟩
  unfold floorTo difference?
  rw [← hvalue]
  dsimp only
  split
  next hfits =>
    have hover : ¬ v.ssubOverflow m = true := by
      simp only [BitVec.ssubOverflow, Bool.or_eq_true, decide_eq_true_eq]
      omega
    rw [if_neg hover, Option.elim_some, BitVec.toInt_sub_of_not_ssubOverflow hover]
  next hlow =>
    have hover : v.ssubOverflow m = true := by
      simp only [BitVec.ssubOverflow, Bool.or_eq_true, decide_eq_true_eq]
      omega
    rw [if_pos hover, Option.elim_none]

end Steps

def scaled? (unscaled scale : Int) : Option (List Char) :=
  if scale ≤ 0 then some (Numeral.scaled unscaled scale)
  else
    let ds := Numeral.digits unscaled.natAbs
    let zeros? := if ds.length ≤ scale.toNat then lengthBehind? (scale.toNat + 1) ds.length else some 0
    zeros?.bind fun zeros =>
      let ds := List.replicate zeros '0' ++ ds
      (lengthBehind? ds.length scale.toNat).map fun point =>
        Numeral.sign unscaled ++ ds.take point ++ '.' :: ds.drop point

theorem scaled?_eq (unscaled scale : Int) :
    scaled? unscaled scale = some (Numeral.scaled unscaled scale) := by
  unfold scaled?
  split
  next => rfl
  next hscale =>
    have hzeros : (if (Numeral.digits unscaled.natAbs).length ≤ scale.toNat then
        lengthBehind? (scale.toNat + 1) (Numeral.digits unscaled.natAbs).length else some 0) =
          some (scale.toNat + 1 - (Numeral.digits unscaled.natAbs).length) := by
      split
      next hle => exact lengthBehind?_of_le (Nat.le_succ_of_le hle)
      next hgt => exact congrArg some (by omega)
    have hwide := Numeral.le_length_padded (scale.toNat + 1) unscaled.natAbs
    have hpoint := lengthBehind?_of_le (Nat.le_of_succ_le hwide)
    rw [Numeral.padded] at hpoint
    simp only [Numeral.scaled, if_neg hscale, Numeral.padded]
    rw [hzeros, Option.bind_some, hpoint, Option.map_some]

def epoch : BitVec 32 := 719163

/-- What becomes of the days of a date when they are counted from the start of year 1.  If these are
no word, the date cannot be written. -/
def withDays {α : Type} (f : BitVec 32 → Except Refusal α) (days : BitVec 32) : Except Refusal α :=
  (sum? days epoch).elim (.error .outOfRange) fun n => f (n - epoch)

def wordDateOf : Value → Except Refusal Calendar.Date
  | .date days => withDays (fun days => dateOf (.date days)) days
  | v => dateOf v

def identityText? (type : ValueType) : Value → Option (Except Refusal (List Char))
  | .date days => some (withDays (fun days => identityText type (.date days)) days)
  | .decimal v => (scaled? v.toInt (scaleOf type)).map .ok
  | v => some (identityText type v)

/-- The steps of a truncation.  There is no multiple of a width that is no word of the type. -/
def truncateText? (width : Nat) (type : ValueType) : Value → Option (Except Refusal (List Char))
  | .int v =>
    if width < 2 ^ 31 then
      (floor? (.ofNat 32 width) v).map fun multiple? =>
        multiple?.elim (.error .outOfRange) fun m => .ok (Numeral.ofInt m.toInt)
    else some (.error .outOfRange)
  | .long v =>
    (floor? (.ofNat 64 width) v).map fun multiple? =>
      multiple?.elim (.error .outOfRange) fun m => .ok (Numeral.ofInt m.toInt)
  | .decimal v =>
    (floor? (.ofNat 128 width) v).bind fun multiple? =>
      multiple?.elim (some (.error .outOfRange)) fun m =>
        (scaled? m.toInt (scaleOf type)).map .ok
  | v => some (truncateText width type v)

/-- The steps of a transform. -/
def Transform.render? (t : Transform) (type : ValueType) (v : Value) :
    Option (Except Refusal (Option (List Char))) :=
  if v.isNull then some (.ok none)
  else match t with
    | void => some (.ok none)
    | identity => (identityText? type v).map (·.map some)
    | year => some ((wordDateOf v).map fun d => some (Calendar.bareYearText d.year))
    | month => some ((wordDateOf v).map fun d => some d.bareMonthText)
    | day => some ((wordDateOf v).map fun d => some d.text)
    | hour => some ((hourText v).map some)
    | truncate width => (truncateText? width type v).map (·.map some)

variable {t : Transform} {width : Nat} {type : ValueType} {v : Value}

theorem withDays_eq {α : Type} {f : BitVec 32 → Except Refusal α} {days : BitVec 32}
    (h : Calendar.inRange days.toInt = false → f days = .error .outOfRange) :
    withDays f days = f days := by
  unfold withDays sum?
  split
  next hover =>
    have hepoch : epoch.toInt = 719163 := by decide
    have hrange : Calendar.inRange days.toInt = false := by
      have hlast : Calendar.yearStart (Calendar.lastYear + 1) < 2 ^ 31 - 719163 := by decide
      have hfirst : -2 ^ 31 < Calendar.yearStart Calendar.firstYear := by decide
      simp only [BitVec.saddOverflow, hepoch, Bool.or_eq_true, decide_eq_true_eq] at hover
      rw [Calendar.inRange, Bool.and_eq_false_iff, decide_eq_false_iff_not,
        decide_eq_false_iff_not]
      omega
    exact (h hrange).symm
  next => rw [Option.elim_some, BitVec.add_sub_cancel]

theorem wordDateOf_eq (v : Value) : wordDateOf v = dateOf v := by
  cases v with
  | date days =>
    rw [wordDateOf, withDays_eq]
    intro h
    simp [dateOf, dayOf?, h]
  | _ => rfl

theorem identityText?_eq (type : ValueType) (v : Value) :
    identityText? type v = some (identityText type v) := by
  cases v with
  | date days =>
    rw [identityText?, withDays_eq]
    intro h
    simp [identityText, dayText, h]
  | decimal v =>
    rw [identityText?, scaled?_eq]
    rfl
  | _ => rfl

theorem truncateText?_eq (hpos : 0 < width) (hlt : width < 2 ^ 32) (type : ValueType) (v : Value) :
    truncateText? width type v = some (truncateText width type v) := by
  cases v with
  | int v =>
    rw [truncateText?, truncateText]
    split
    next hint =>
      obtain ⟨multiple?, hfloor, heq⟩ := floor?_eq hpos hint v
      rw [hfloor, heq]
      cases multiple? <;> rfl
    next => rfl
  | long v =>
    obtain ⟨multiple?, hfloor, heq⟩ := floor?_eq hpos (hlt.trans (by decide)) v
    rw [truncateText?, truncateText, hfloor, heq]
    cases multiple? <;> rfl
  | decimal v =>
    obtain ⟨multiple?, hfloor, heq⟩ := floor?_eq hpos (hlt.trans (by decide)) v
    rw [truncateText?, truncateText, hfloor, heq, Option.bind_some]
    cases multiple? with
    | none => rfl
    | some m =>
      rw [Option.elim_some, scaled?_eq]
      rfl
  | _ => rfl

/-- No step of a transform is without a result, if its width is positive and a word. -/
theorem Transform.render?_eq (hpos : t ≠ truncate 0) (hw : ∀ w, t = truncate w → w < 2 ^ 32)
    (type : ValueType) (v : Value) : t.render? type v = some (t.render type v) := by
  unfold render? render
  split
  next => rfl
  next =>
    cases t with
    | identity => rw [identityText?_eq, Option.map_some]
    | truncate width =>
      have hwidth : 0 < width := Nat.pos_of_ne_zero fun h => hpos (congrArg truncate h)
      dsimp only
      rw [truncateText?_eq hwidth (hw width rfl), Option.map_some]
    | year | month | day => rw [wordDateOf_eq]
    | hour | void => rfl

end ChangeBuffer.Partition
