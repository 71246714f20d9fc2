import ChangeBuffer.Bytes.Basic
import ChangeBuffer.Decimal.Binary

/-! # Values and their types

Integers are kept as words of their width, read as two's complement.  Floating-point numbers are
kept as their bits, so that no payload of a NaN is lost.
-/

namespace ChangeBuffer

inductive ValueType
  | boolean
  | int
  | long
  | float
  | double
  | date
  | timestamp
  | string
  | binary
  | decimal (precision : Nat) (scale : Int)
  deriving DecidableEq

/-- A single field of a row.  Dates count days and timestamps microseconds from the start of 1970;
decimals are unscaled, their scale is in the column's type. -/
inductive Value
  | null
  | boolean (b : Bool)
  | int (v : BitVec 32)
  | long (v : BitVec 64)
  | float (bits : BitVec 32)
  | double (bits : BitVec 64)
  | date (days : BitVec 32)
  | timestamp (micros : BitVec 64)
  | string (s : String)
  | binary (bs : Bytes)
  | decimal (unscaled : BitVec 128)
  deriving DecidableEq

namespace Value

def isNull : Value → Bool
  | null => true
  | _ => false

/-- Whether a column of the type may hold the value.  Null fits every type. -/
def conforms : Value → ValueType → Bool
  | null, _ => true
  | boolean _, .boolean => true
  | int _, .int => true
  | long _, .long => true
  | float _, .float => true
  | double _, .double => true
  | date _, .date => true
  | timestamp _, .timestamp => true
  | string _, .string => true
  | binary _, .binary => true
  | decimal _, .decimal _ _ => true
  | _, _ => false

/-- The one NaN of its width that stands for all of them; every other value is kept. -/
def canonical : Value → Value
  | float bits => if Binary.Format.single.isNaN bits.toNat then float 0x7FC00000 else float bits
  | double bits =>
    if Binary.Format.double.isNaN bits.toNat then double 0x7FF8000000000000 else double bits
  | v => v

theorem canonical_canonical (v : Value) : v.canonical.canonical = v.canonical := by
  cases v with
  | float bits =>
    by_cases h : Binary.Format.single.isNaN bits.toNat
    · simp only [canonical, h, if_true]
      split <;> rfl
    · simp [canonical, h]
  | double bits =>
    by_cases h : Binary.Format.double.isNaN bits.toNat
    · simp only [canonical, h, if_true]
      split <;> rfl
    · simp [canonical, h]
  | _ => rfl

end Value

end ChangeBuffer
