import ChangeBuffer.Instances

/-! # Binary floating-point formats

What the bits of an IEEE 754 binary number stand for: `m * 2 ^ q`, an infinity, or no number.
-/

namespace ChangeBuffer.Binary

/-- The widths of the two fields behind the sign bit. -/
structure Format where
  exponentBits : Nat
  fractionBits : Nat

def Format.single : Format := ⟨8, 23⟩

def Format.double : Format := ⟨11, 52⟩

/-- A finite value is `m * 2 ^ q`; it is `narrow` if its lower neighbour is half as far away as
its upper one. -/
inductive Reading
  | nan
  | infinite (negative : Bool)
  | finite (negative : Bool) (m : Nat) (q : Int) (narrow : Bool)
  deriving DecidableEq

namespace Format

variable (f : Format)

def fraction (bits : Nat) : Nat := bits % 2 ^ f.fractionBits

def exponent (bits : Nat) : Nat := bits / 2 ^ f.fractionBits % 2 ^ f.exponentBits

def negative (bits : Nat) : Bool := bits / 2 ^ (f.fractionBits + f.exponentBits) % 2 = 1

/-- The power of two of the last fraction bit in the subnormal numbers. -/
def lowest : Int := 2 - 2 ^ (f.exponentBits - 1) - f.fractionBits

def read (bits : Nat) : Reading :=
  if f.exponent bits = 2 ^ f.exponentBits - 1 then
    if f.fraction bits = 0 then .infinite (f.negative bits) else .nan
  else if f.exponent bits = 0 then
    .finite (f.negative bits) (f.fraction bits) f.lowest false
  else
    .finite (f.negative bits) (2 ^ f.fractionBits + f.fraction bits)
      (f.lowest + (f.exponent bits - 1)) (f.fraction bits = 0 && 1 < f.exponent bits)

def isNaN (bits : Nat) : Bool :=
  f.exponent bits = 2 ^ f.exponentBits - 1 && f.fraction bits ≠ 0

/-- Zero of either sign. -/
def isZero (bits : Nat) : Bool := f.exponent bits = 0 && f.fraction bits = 0

end Format

end ChangeBuffer.Binary
