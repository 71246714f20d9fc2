import ChangeBuffer.Decimal.Notation
import ChangeBuffer.Text.Quoted
import ChangeBuffer.Value.Basic

/-! # Texts of values and types

How values appear in rows that are shown and in messages: the kind of the value, and the value
itself in parentheses.
-/

namespace ChangeBuffer

/-- Numbers from `1e-4` up to `1e16` have no exponent, whole numbers keep a digit behind the
point, only negative exponents have a sign, and ties go up. -/
def Value.numberStyle : Decimal.Style := ⟨fun lead => -4 ≤ lead && lead < 16, true, false, .up⟩

def ValueType.text : ValueType → String
  | boolean => "boolean"
  | int => "int"
  | long => "long"
  | float => "float"
  | double => "double"
  | date => "date"
  | timestamp => "timestamp"
  | string => "string"
  | binary => "binary"
  | decimal precision scale =>
    "decimal(" ++ String.ofList (Numeral.digits precision) ++ ", " ++
      String.ofList (Numeral.ofInt scale) ++ ")"

namespace Value

def wrapped (kind : String) (body : List Char) : String :=
  kind ++ "(" ++ String.ofList body ++ ")"

def text : Value → String
  | null => "Null"
  | boolean b => wrapped "Boolean" (if b then "true" else "false").toList
  | int v => wrapped "Int" (Numeral.ofInt v.toInt)
  | long v => wrapped "Long" (Numeral.ofInt v.toInt)
  | float bits => wrapped "Float" (numberStyle.write .single bits.toNat)
  | double bits => wrapped "Double" (numberStyle.write .double bits.toNat)
  | date days => wrapped "Date" (Numeral.ofInt days.toInt)
  | timestamp micros => wrapped "Timestamp" (Numeral.ofInt micros.toInt)
  | string s => wrapped "String" (Quoted.write s)
  | binary bs =>
    wrapped "Binary"
      ('[' :: [',', ' '].intercalate (bs.map fun b => Numeral.digits b.toNat) ++ [']'])
  | decimal unscaled => wrapped "Decimal" (Numeral.ofInt unscaled.toInt)

end Value

end ChangeBuffer
