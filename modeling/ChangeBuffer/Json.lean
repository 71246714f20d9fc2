import ChangeBuffer.Decimal.Notation
import ChangeBuffer.Text.Quoted

/-! # JSON values

Numbers written without a fraction and an exponent are integers, all others are kept as the bits
of a double.  The members of an object have different names.
-/

namespace ChangeBuffer

inductive Json
  | null
  | boolean (b : Bool)
  | integer (n : Int)
  | float (bits : BitVec 64)
  | string (s : String)
  | array (items : List Json)
  | object (members : List (String × Json))
  deriving Inhabited

namespace Json

/-- Numbers from `1e-5` up to `1e16` have no exponent, whole numbers keep a digit behind the
point, exponents have a sign, and ties go to the even neighbour. -/
def numberStyle : Decimal.Style := ⟨fun lead => -5 ≤ lead && lead < 16, true, true, .toEven⟩

/-- What kind of value it is, with the value itself if that is short. -/
def describe : Json → String
  | null => "null"
  | boolean b => "boolean `" ++ (if b then "true" else "false") ++ "`"
  | integer n => "integer `" ++ String.ofList (Numeral.ofInt n) ++ "`"
  | float bits =>
    "floating point `" ++ String.ofList (numberStyle.write .double bits.toNat) ++ "`"
  | string s => "string " ++ String.ofList (Quoted.write s)
  | array _ => "sequence"
  | object _ => "map"

def member? (members : List (String × Json)) (name : String) : Option Json :=
  (members.find? (·.1 = name)).map (·.2)

end Json

end ChangeBuffer
