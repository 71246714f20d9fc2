import ChangeBuffer.Calendar.Notation
import ChangeBuffer.Bytes.Hex
import ChangeBuffer.Value.Printer

/-! # Transforms

A transform turns the value of a column into the text by which rows are partitioned.
-/

namespace ChangeBuffer.Partition

inductive Transform
  | identity
  | year
  | month
  | day
  | hour
  | truncate (width : Nat)
  | void
  deriving DecidableEq

inductive Refusal
  | unsupported
  | outOfRange
  deriving DecidableEq

/-- Floating-point numbers as partition values have neither an exponent nor a needless point. -/
def numberStyle : Decimal.Style := ⟨fun _ => true, false, false, .up⟩

/-- The decimal places of a type. -/
def scaleOf : ValueType → Int
  | .decimal _ scale => scale
  | _ => 0

def dayText (day : Int) : Except Refusal (List Char) :=
  if Calendar.inRange day then .ok (Calendar.Date.ofDay day).text else .error .outOfRange

def identityText (type : ValueType) : Value → Except Refusal (List Char)
  | .null => .ok ['n', 'u', 'l', 'l']
  | .boolean b => .ok (if b then ['t', 'r', 'u', 'e'] else ['f', 'a', 'l', 's', 'e'])
  | .int v => .ok (Numeral.ofInt v.toInt)
  | .long v => .ok (Numeral.ofInt v.toInt)
  | .float bits => .ok (numberStyle.write .single bits.toNat)
  | .double bits => .ok (numberStyle.write .double bits.toNat)
  | .date days => dayText days.toInt
  | .timestamp micros =>
    if Calendar.inRange (Calendar.dayOf micros.toInt) then .ok (Calendar.momentText micros.toInt)
    else .error .outOfRange
  | .string s => .ok s.toList
  | .binary bs => .ok (Hex.encode bs)
  | .decimal unscaled => .ok (Numeral.scaled unscaled.toInt (scaleOf type))

def dayOf? : Value → Option Int
  | .date days => some days.toInt
  | .timestamp micros => some (Calendar.dayOf micros.toInt)
  | _ => none

def dateOf (v : Value) : Except Refusal Calendar.Date :=
  match dayOf? v with
  | none => .error .unsupported
  | some day => if Calendar.inRange day then .ok (.ofDay day) else .error .outOfRange

def hourText : Value → Except Refusal (List Char)
  | .timestamp micros =>
    if Calendar.inRange (Calendar.dayOf micros.toInt) then .ok (Calendar.hourText micros.toInt)
    else .error .outOfRange
  | _ => .error .unsupported

/-- The largest multiple of `width` up to `v`, if that is a word of `bits` bits. -/
def floorTo (width : Nat) (bits : Nat) (v : Int) : Except Refusal Int :=
  let floor := v - v % width
  if -2 ^ (bits - 1) ≤ floor then .ok floor else .error .outOfRange

/-- Numbers are rounded down to a multiple of the width, texts and byte strings are cut. -/
def truncateText (width : Nat) (type : ValueType) : Value → Except Refusal (List Char)
  | .int v =>
    if width < 2 ^ 31 then (floorTo width 32 v.toInt).map Numeral.ofInt else .error .outOfRange
  | .long v => (floorTo width 64 v.toInt).map Numeral.ofInt
  | .string s => .ok (s.toList.take width)
  | .binary bs => .ok (Hex.encode (bs.take width))
  | .decimal unscaled =>
    (floorTo width 128 unscaled.toInt).map fun floor => Numeral.scaled floor (scaleOf type)
  | _ => .error .unsupported

namespace Transform

def text : Transform → String
  | identity => "identity"
  | year => "year"
  | month => "month"
  | day => "day"
  | hour => "hour"
  | truncate width => "truncate[" ++ String.ofList (Numeral.digits width) ++ "]"
  | void => "void"

def applies : Transform → ValueType → Bool
  | identity, _ | void, _ => true
  | year, type | month, type | day, type => type = .date || type = .timestamp
  | hour, type => type = .timestamp
  | truncate _, .int | truncate _, .long | truncate _, .string | truncate _, .binary => true
  | truncate _, .decimal _ _ => true
  | truncate _, _ => false

/-- The width of a truncation that exceeds the integers of the type. -/
def excess? : Transform → ValueType → Option Nat
  | truncate width, .int => if 2 ^ 31 ≤ width then some width else none
  | _, _ => none

/-- What a transform of a partition field satisfies. -/
structure Fits (t : Transform) (type : ValueType) : Prop where
  applies : t.applies type = true
  positive : t ≠ truncate 0
  bounded : t.excess? type = none

/-- The text of a value of the type, nothing for null and for the void transform. -/
def render (t : Transform) (type : ValueType) (v : Value) : Except Refusal (Option (List Char)) :=
  if v.isNull then .ok none
  else match t with
    | void => .ok none
    | identity => (identityText type v).map some
    | year => (dateOf v).map fun d => some (Calendar.bareYearText d.year)
    | month => (dateOf v).map fun d => some d.bareMonthText
    | day => (dateOf v).map fun d => some d.text
    | hour => (hourText v).map some
    | truncate width => (truncateText width type v).map some

end Transform

end ChangeBuffer.Partition
