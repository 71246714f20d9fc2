import ChangeBuffer.Bytes.Hex

/-! # Escaped texts

Form encoding of the names and values in a path: letters, digits and `.-*_` stand for themselves,
`+` for a space, and every other byte is written as `%` with two digits.
-/

namespace ChangeBuffer.Partition.Escape

/-- The bytes that stand for themselves. -/
def isPlain (b : UInt8) : Bool :=
  (0x61 ≤ b && b ≤ 0x7A) || (0x41 ≤ b && b ≤ 0x5A) || (0x30 ≤ b && b ≤ 0x39) ||
    b = 0x2E || b = 0x2D || b = 0x2A || b = 0x5F

def encodeByte (b : UInt8) : List Char :=
  if isPlain b then [Char.ofNat b.toNat]
  else if b = 0x20 then ['+']
  else ['%', Hex.upperDigit (b.toNat / 16), Hex.upperDigit (b.toNat % 16)]

/-- The escaped form of a text, byte by byte of its UTF-8 form. -/
def encode (s : String) : List Char := (Bytes.ofText s).flatMap encodeByte

end ChangeBuffer.Partition.Escape
