import ChangeBuffer.Instances

/-! # Shortest decimals

The decimal with the fewest digits inside the interval of reals that round to a binary number.
Of the decimals with that many digits it is the one nearest to the number.
-/

namespace ChangeBuffer.Shortest

/-- Where a decimal goes that has two nearest neighbours. -/
inductive Tie
  | up
  | toEven
  deriving DecidableEq

/-- The number `mid / den` inside the interval from `low / den` to `high / den`. -/
structure Interval where
  low : Nat
  mid : Nat
  high : Nat
  den : Nat
  closed : Bool

/-- The reals that round to `m * 2 ^ q`.  They include the ends if `m` is even. -/
def Interval.of (m : Nat) (q : Int) (narrow : Bool) : Interval :=
  let unit := 2 ^ (q - 2).toNat
  { low := (4 * m - if narrow then 1 else 2) * unit
    mid := 4 * m * unit
    high := (4 * m + 2) * unit
    den := 2 ^ (2 - q).toNat
    closed := m % 2 = 0 }

namespace Interval

variable (i : Interval)

/-- The interval in units of `10 ^ e`. -/
def rescale (e : Int) : Interval :=
  let up := 10 ^ (-e).toNat
  { i with low := i.low * up, mid := i.mid * up, high := i.high * up, den := i.den * 10 ^ e.toNat }

def contains (c : Nat) : Bool :=
  if i.closed then i.low ≤ c * i.den && c * i.den ≤ i.high
  else i.low < c * i.den && c * i.den < i.high

/-- The integer of the interval that is nearest to its number. -/
def nearest? (tie : Tie) : Option Nat :=
  let c := i.mid / i.den
  match i.contains c, i.contains (c + 1) with
  | false, false => none
  | true, false => some c
  | false, true => some (c + 1)
  | true, true =>
    let twice := 2 * (i.mid % i.den)
    if twice < i.den then some c
    else if i.den < twice then some (c + 1)
    else match tie with
      | .up => some (c + 1)
      | .toEven => some (c + c % 2)

/-- The `k` with `10 ^ (k - 1) ≤ v < 10 ^ k` for the interval's number `v`, if that is positive. -/
def magnitude : Int :=
  if i.den ≤ i.mid then (Nat.toDigits 10 (i.mid / i.den)).length
  else
    let n := (Nat.toDigits 10 (i.den / i.mid)).length
    if i.den = i.mid * 10 ^ (n - 1) then 2 - n else 1 - n

end Interval

/-- A number of digits that suffices for every number of the formats in use. -/
def maxDigits : Nat := 17

/-- `some (c, e)` for the decimal `c * 10 ^ e` with the fewest digits that rounds to `m * 2 ^ q`. -/
def decimal? (tie : Tie) (m : Nat) (q : Int) (narrow : Bool) : Option (Nat × Int) :=
  let i := Interval.of m q narrow
  (List.range maxDigits).findSome? fun (n : Nat) =>
    let e := i.magnitude - ((n + 1 : Nat) : Int)
    ((i.rescale e).nearest? tie).map (·, e)

end ChangeBuffer.Shortest
