import ChangeBuffer.Instances

/-! # The proleptic Gregorian calendar

Days are counted from 1970-01-01.  `Date.ofDay` gives the date of a day and `Date.day` the day of a
date.
-/

namespace ChangeBuffer.Calendar

def isLeap (year : Int) : Bool := year % 4 = 0 && (year % 100 ≠ 0 || year % 400 = 0)

def yearStart (year : Int) : Int :=
  365 * (year - 1970) + (year - 1) / 4 - (year - 1) / 100 + (year - 1) / 400 - 477

/-- The year of a day.  The quotient by the mean length of a year is off by at most one. -/
def yearOf (day : Int) : Int :=
  let guess := 1970 + 400 * day / 146097
  if day < yearStart guess then guess - 1
  else if yearStart (guess + 1) ≤ day then guess + 1
  else guess

/-- The lengths of the months in order. -/
def monthLengths (leap : Bool) : List Nat :=
  [31, if leap then 29 else 28, 31, 30, 31, 30, 31, 31, 30, 31, 30, 31]

/-- The month, counted from `month`, and the day of the month of the `n`-th day, from zero. -/
def splitMonths (month n : Nat) : List Nat → Nat × Nat
  | [] => (month, n + 1)
  | len :: lens => if n < len then (month, n + 1) else splitMonths (month + 1) (n - len) lens

structure Date where
  year : Int
  month : Nat
  day : Nat
  deriving DecidableEq

namespace Date

def ofDay (day : Int) : Date :=
  let year := yearOf day
  let (month, d) := splitMonths 1 (day - yearStart year).toNat (monthLengths (isLeap year))
  ⟨year, month, d⟩

def toDay (d : Date) : Int :=
  yearStart d.year + ((monthLengths (isLeap d.year)).take (d.month - 1)).sum + d.day - 1

end Date

/-- The years that can be written. -/
def firstYear : Int := -262143

def lastYear : Int := 262142

/-- Whether the date of a day can be written. -/
def inRange (day : Int) : Bool := yearStart firstYear ≤ day && day < yearStart (lastYear + 1)

def dayMicros : Int := 86400000000

/-- The day of a moment, given in microseconds. -/
def dayOf (micros : Int) : Int := micros / dayMicros

/-- The microseconds of a moment since its midnight. -/
def sinceMidnight (micros : Int) : Nat := (micros % dayMicros).toNat

end ChangeBuffer.Calendar
