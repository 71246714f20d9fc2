/-! # Decimal numerals

Integers and scaled integers in positional decimal notation, as lists of characters.
-/

namespace ChangeBuffer.Numeral

/-- The digits of `n`, without leading zeros. -/
def digits (n : Nat) : List Char := Nat.toDigits 10 n

/-- The digits of `n`, with zeros in front up to `width` characters. -/
def padded (width n : Nat) : List Char :=
  List.replicate (width - (digits n).length) '0' ++ digits n

def sign (n : Int) : List Char := if n < 0 then ['-'] else []

def ofInt (n : Int) : List Char := sign n ++ digits n.natAbs

/-- The number `unscaled / 10 ^ scale`: exactly `scale` digits behind the point if `scale` is
positive, else an integer with `-scale` more zeros. -/
def scaled (unscaled scale : Int) : List Char :=
  if scale ≤ 0 then ofInt unscaled ++ List.replicate scale.natAbs '0'
  else
    let ds := padded (scale.toNat + 1) unscaled.natAbs
    let point := ds.length - scale.toNat
    sign unscaled ++ ds.take point ++ '.' :: ds.drop point

end ChangeBuffer.Numeral
