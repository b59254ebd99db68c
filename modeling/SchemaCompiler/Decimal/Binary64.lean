import SchemaCompiler.Decimal.Digits

/-
Double-precision numbers as data.

A number is its 64-bit interchange pattern.  A finite pattern denotes
`significand * 2 ^ exponent` with a sign, and a decimal is read to the nearest
pattern, a tie going to the even significand.  Everything here is exact
arithmetic on natural numbers; no machine arithmetic is used.
-/

namespace SchemaCompiler
namespace Decimal

/-- A double-precision number, by its bits. -/
structure Binary64 where
  /-- The sign, eleven exponent bits and fifty-two significand bits. -/
  bits : UInt64
deriving DecidableEq, Repr, Inhabited

/-- The absolute value of a double-precision number. -/
inductive Magnitude where
  /-- The number `significand * 2 ^ exponent`. -/
  | finite (significand : Nat) (exponent : Int)
  /-- Infinity. -/
  | infinite
  /-- No number at all. -/
  | notANumber
deriving DecidableEq, Repr

/-- The least exponent of a finite pattern. -/
def leastExponent : Int := -1074

/-- The pattern of infinity, which no finite pattern reaches. -/
def infinitePattern : Nat := 2047 * twoTo 52

namespace Binary64

/-- Whether the sign bit is set. -/
def isNegative (x : Binary64) : Bool :=
  twoTo 63 ≤ x.bits.toNat

/-- The bits below the sign, as a number. -/
def pattern (x : Binary64) : Nat :=
  x.bits.toNat % twoTo 63

/-- What the bits below the sign denote. -/
def magnitude (x : Binary64) : Magnitude :=
  let scale : Nat := x.pattern / twoTo 52
  let fraction : Nat := x.pattern % twoTo 52
  if scale = 2047 then
    if fraction = 0 then .infinite else .notANumber
  else if scale = 0 then
    .finite fraction leastExponent
  else
    .finite (twoTo 52 + fraction) ((scale : Int) - 1 + leastExponent)

/-- Whether the number is a zero, of either sign. -/
def isZero (x : Binary64) : Bool :=
  x.pattern == 0

/-- The number with the given sign and the given bits below it. -/
def ofPattern (negative : Bool) (pattern : Nat) : Binary64 :=
  ⟨UInt64.ofNat (if negative then twoTo 63 + pattern else pattern)⟩

end Binary64

/-- The whole number nearest to a quotient; a tie goes to the even one. -/
def roundToEven (numerator denominator : Nat) : Nat :=
  let quotient := numerator / denominator
  let twice := 2 * (numerator % denominator)
  if twice < denominator then quotient
  else if denominator < twice then quotient + 1
  else quotient + quotient % 2

/-- The pattern nearest to a positive quotient, infinity or beyond when it is too
large.

The exponent is the one that leaves fifty-three bits before the point, unless
that is below the least one.  A significand that rounds up to a fifty-fourth bit
carries into the exponent field by itself. -/
def nearestPattern (numerator denominator : Nat) : Nat :=
  let guess : Int := max ((numerator.log2 : Int) - denominator.log2 - 53) leastExponent
  let scaled (exponent : Int) : Nat × Nat :=
    (numerator * twoTo (-exponent).toNat, denominator * twoTo exponent.toNat)
  let exponent :=
    if (scaled guess).1 / (scaled guess).2 < twoTo 53 then guess else guess + 1
  (exponent - leastExponent).toNat * twoTo 52
    + roundToEven (scaled exponent).1 (scaled exponent).2

/-- The double nearest to `coefficient * 10 ^ exponent`, or nothing when that is
beyond the finite range.

A decimal whose leading digit stands above the 310th place is out of range, and
one below the place -326 is a zero, so no power far outside the range is ever
computed. -/
def Binary64.ofDecimal? (negative : Bool) (coefficient : Nat) (exponent : Int) :
    Option Binary64 :=
  let place : Int := (digits coefficient).length + exponent
  let pattern :=
    if coefficient = 0 then 0
    else if 310 < place then infinitePattern
    else if place < -326 then 0
    else nearestPattern (coefficient * tenTo exponent.toNat) (tenTo (-exponent).toNat)
  if pattern < infinitePattern then some (.ofPattern negative pattern) else none

example : Binary64.ofDecimal? false 1 0 = some ⟨0x3FF0000000000000⟩ := by decide +kernel
example : Binary64.ofDecimal? true 0 99999999999 = some ⟨0x8000000000000000⟩ := by
  decide +kernel
example : Binary64.ofDecimal? false 5 (-324) = some ⟨1⟩ := by decide +kernel
example : Binary64.ofDecimal? false 1 400 = none := by decide +kernel

end Decimal
end SchemaCompiler
