import ChangeBuffer.Decimal.Binary
import ChangeBuffer.Decimal.Numeral
import ChangeBuffer.Decimal.Shortest

/-! # Texts of binary floating-point numbers

A style decides which numbers are written positionally, whether a whole number keeps a digit
behind the point, whether an exponent has a plus sign, and where an exact tie goes.
-/

namespace ChangeBuffer.Decimal

/-- How floating-point numbers are written.  `positional x` holds if a number whose first digit
counts `10 ^ x` is written without an exponent; `point` puts `.0` behind whole numbers that are;
`plus` puts `+` in front of exponents that are not negative. -/
structure Style where
  positional : Int → Bool
  point : Bool
  plus : Bool
  tie : Shortest.Tie

/-- The digits of `c * 10 ^ e` without trailing zeros, and the exponent of the last of them. -/
def trimmed (c : Nat) (e : Int) : List Char × Int :=
  let ds := Numeral.digits c
  let zeros := (ds.reverse.takeWhile (· = '0')).length
  if zeros = ds.length then (['0'], 0) else (ds.take (ds.length - zeros), e + zeros)

/-- Digits whose last one counts `10 ^ e`, without an exponent. -/
def plainForm (point : Bool) (ds : List Char) (e : Int) : List Char :=
  if 0 ≤ e then
    ds ++ List.replicate e.toNat '0' ++ if point then ['.', '0'] else []
  else if e.natAbs < ds.length then
    ds.take (ds.length - e.natAbs) ++ '.' :: ds.drop (ds.length - e.natAbs)
  else
    '0' :: '.' :: List.replicate (e.natAbs - ds.length) '0' ++ ds

/-- Digits with one of them in front of the point and the exponent behind. -/
def exponentForm (plus : Bool) (ds : List Char) (lead : Int) : List Char :=
  ds.take 1 ++ (if ds.length ≤ 1 then [] else '.' :: ds.drop 1) ++
    'e' :: (if plus && 0 ≤ lead then ['+'] else []) ++ Numeral.ofInt lead

namespace Style

variable (s : Style)

def magnitude (m : Nat) (q : Int) (narrow : Bool) : List Char :=
  let (c, e) := if m = 0 then (0, 0) else (Shortest.decimal? s.tie m q narrow).getD (0, 0)
  let (ds, e) := trimmed c e
  let lead := e + ds.length - 1
  if m = 0 || s.positional lead then plainForm s.point ds e
  else exponentForm s.plus ds lead

/-- The text of the number with the given bits. -/
def write (f : Binary.Format) (bits : Nat) : List Char :=
  match f.read bits with
  | .nan => ['N', 'a', 'N']
  | .infinite negative => (if negative then ['-'] else []) ++ ['i', 'n', 'f']
  | .finite negative m q narrow => (if negative then ['-'] else []) ++ s.magnitude m q narrow

end Style

end ChangeBuffer.Decimal
