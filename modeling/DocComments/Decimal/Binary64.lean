/-!
# Binary floating-point numbers

A `Binary64` is a number in the 64-bit binary format, held by its bits. `ofDecimal` rounds a
decimal to the nearest such number; `parts` gives back sign, significand and exponent.
-/

namespace DocComments.Decimal

/-- A power of two. -/
def powerOfTwo (n : Nat) : Nat :=
  Nat.pow 2 n

/-- A power of ten. -/
def powerOfTen (n : Nat) : Nat :=
  Nat.pow 10 n

/-- A number in the 64-bit binary floating-point format. -/
structure Binary64 where
  bits : UInt64
deriving DecidableEq, Repr

namespace Binary64

/-- The number nearest to `digits · 10 ^ (-scale)`, negated if asked; too large gives infinity. -/
def ofDecimal (negative : Bool) (digits scale : Nat) : Binary64 :=
  let magnitude := (Float.ofScientific digits true scale).toBits
  ⟨if negative then magnitude ||| 0x8000000000000000 else magnitude⟩

/-- The number nearest to `digits · 10 ^ exponent`; too large gives infinity, too small zero. -/
def ofScientific (digits : Nat) (exponent : Int) : Binary64 :=
  let places := (Nat.toDigits 10 digits).length + exponent
  if digits = 0 || places < -330 then ⟨0⟩
  else if places > 310 then ⟨0x7ff0000000000000⟩
  else ofDecimal false (digits * powerOfTen exponent.toNat) (-exponent).toNat

/-- Is the sign bit set? -/
def isNegative (x : Binary64) : Bool :=
  x.bits >>> 63 == 1

/-- The eleven exponent bits. -/
def exponentBits (x : Binary64) : Nat :=
  (x.bits >>> 52 &&& 0x7ff).toNat

/-- The fifty-two fraction bits. -/
def fractionBits (x : Binary64) : Nat :=
  (x.bits &&& 0xfffffffffffff).toNat

/-- Is the number neither infinite nor undefined? -/
def isFinite (x : Binary64) : Bool :=
  x.exponentBits != 0x7ff

/-- The magnitude of a finite number as `significand · 2 ^ (exponent - 1075)`. -/
def parts (x : Binary64) : Nat × Nat :=
  if x.exponentBits = 0 then (x.fractionBits, 1)
  else (x.fractionBits + powerOfTwo 52, x.exponentBits)

/-- The magnitude of a finite number if it is whole. -/
def whole? (x : Binary64) : Option Nat :=
  let (significand, exponent) := x.parts
  let divisor := powerOfTwo (1075 - exponent)
  if significand % divisor = 0 then some (significand / divisor * powerOfTwo (exponent - 1075))
  else none

end Binary64

end DocComments.Decimal
