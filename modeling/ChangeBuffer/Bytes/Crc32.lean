import ChangeBuffer.Bytes.Basic

/-! # CRC-32

The reflected cyclic redundancy check with polynomial `0xEDB88320`, register preset to all ones
and complemented at the end.
-/

namespace ChangeBuffer.Crc32

/-- One bit of the register's division by the polynomial. -/
def shift (s : UInt32) : UInt32 :=
  if s &&& 1 = 1 then (s >>> 1) ^^^ 0xEDB88320 else s >>> 1

/-- The register after `n` shifts. -/
def shifts : Nat → UInt32 → UInt32
  | 0, s => s
  | n + 1, s => shifts n (shift s)

/-- The register after one more byte. -/
def absorb (s : UInt32) (b : UInt8) : UInt32 :=
  shifts 8 (s ^^^ b.toUInt32)

/-- The check value of a byte string. -/
def checksum (bs : Bytes) : UInt32 :=
  bs.foldl absorb 0xFFFFFFFF ^^^ 0xFFFFFFFF

end ChangeBuffer.Crc32
