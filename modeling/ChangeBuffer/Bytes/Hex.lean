import ChangeBuffer.Bytes.Basic

/-! # Hexadecimal digits -/

namespace ChangeBuffer.Hex

/-- The digit of a value below sixteen, in lower case. -/
def digit (n : Nat) : Char :=
  if n < 10 then Char.ofNat (48 + n) else Char.ofNat (87 + n)

def upperDigit (n : Nat) : Char :=
  if n < 10 then Char.ofNat (48 + n) else Char.ofNat (55 + n)

/-- Two lower-case digits for each byte. -/
def encode (bs : Bytes) : List Char :=
  bs.flatMap fun b => [digit (b.toNat / 16), digit (b.toNat % 16)]

/-- The digits of a number in lower case, without leading zeros. -/
def ofNat (n : Nat) : List Char :=
  Nat.toDigits 16 n

end ChangeBuffer.Hex
