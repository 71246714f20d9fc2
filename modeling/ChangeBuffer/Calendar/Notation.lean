import ChangeBuffer.Calendar.Basic
import ChangeBuffer.Decimal.Numeral

/-! # Texts of dates and times -/

namespace ChangeBuffer.Calendar

/-- Four digits, more behind a plus sign, and a minus sign in front of four digits. -/
def yearText (year : Int) : List Char :=
  (if year < 0 then ['-'] else if 9999 < year then ['+'] else []) ++
    Numeral.padded 4 year.natAbs

/-- Four characters with the sign, or as many as it takes. -/
def bareYearText (year : Int) : List Char :=
  Numeral.sign year ++ Numeral.padded (4 - (Numeral.sign year).length) year.natAbs

namespace Date

variable (d : Date)

def bareMonthText : List Char := bareYearText d.year ++ '-' :: Numeral.padded 2 d.month

def text : List Char :=
  yearText d.year ++ '-' :: Numeral.padded 2 d.month ++ '-' :: Numeral.padded 2 d.day

end Date

/-- Nothing for a whole second, else milliseconds if they are exact, else microseconds. -/
def fractionText (micros : Nat) : List Char :=
  if micros = 0 then []
  else if micros % 1000 = 0 then '.' :: Numeral.padded 3 (micros / 1000)
  else '.' :: Numeral.padded 6 micros

def hourOf (micros : Int) : Nat := sinceMidnight micros / 3600000000

def timeText (micros : Int) : List Char :=
  let t := sinceMidnight micros
  Numeral.padded 2 (hourOf micros) ++ ':' :: Numeral.padded 2 (t / 60000000 % 60) ++
    ':' :: Numeral.padded 2 (t / 1000000 % 60) ++ fractionText (t % 1000000)

def momentText (micros : Int) : List Char :=
  (Date.ofDay (dayOf micros)).text ++ 'T' :: timeText micros

def hourText (micros : Int) : List Char :=
  (Date.ofDay (dayOf micros)).text ++ '-' :: Numeral.padded 2 (hourOf micros)

end ChangeBuffer.Calendar
