import SchemaCompiler.Decimal.Binary64

/-
The shortest decimal that reads back as a given double.

The reals that round to `significand * 2 ^ exponent` form an interval, whose
ends belong to it exactly when the significand is even.  The grids of multiples
of ever smaller powers of ten are tried in turn, and the first grid with a point
in the interval wins: of its two points next to the number, the nearer one that
lies inside.  Only a point next to the number need be tried, because the
interval contains the number.
-/

namespace SchemaCompiler
namespace Decimal

/-- The number `coefficient * 10 ^ exponent`. -/
structure Scaled where
  /-- The digits, as a whole number. -/
  coefficient : Nat
  /-- The power of ten. -/
  exponent : Int
deriving DecidableEq, Repr

/-- Where a number midway between two points of a grid goes. -/
inductive Tie where
  /-- To the point above. -/
  | up
  /-- To the point with an even coefficient. -/
  | even
deriving DecidableEq, Repr

/-- The coefficient midway numbers go to, of `below` and its successor. -/
def Tie.choose (tie : Tie) (below : Nat) : Nat :=
  match tie with
  | .up => below + 1
  | .even => below + below % 2

/-- The point of the grid of multiples of `10 ^ place` that reads back as the
double and is nearest to it, if there is one.

Lengths are measured in quarters of the last binary place.  The interval reaches
two quarters to either side, but only one quarter downward from a power of two
with a closer neighbour below. -/
def onGrid? (tie : Tie) (significand : Nat) (exponent place : Int) : Option Nat :=
  let quarter := exponent - 2
  let unit := twoTo quarter.toNat * tenTo (-place).toNat
  let step := twoTo (-quarter).toNat * tenTo place.toNat
  let number := 4 * significand * unit
  let downward := if significand = twoTo 52 ∧ leastExponent < exponent then 1 else 2
  let low := (4 * significand - downward) * unit
  let high := (4 * significand + 2) * unit
  let inside (c : Nat) : Bool :=
    if significand % 2 = 0 then low ≤ c * step && c * step ≤ high
    else low < c * step && c * step < high
  let below := number / step
  let gapBelow := number - below * step
  let gapAbove := (below + 1) * step - number
  match inside below, inside (below + 1) with
  | true, true =>
      some <|
        if gapBelow < gapAbove then below
        else if gapAbove < gapBelow then below + 1
        else tie.choose below
  | true, false => some below
  | false, true => some (below + 1)
  | false, false => none

/-- The first hit on the grids from `place` downward, of which `tries` more are
tried after this one. -/
def firstHit (tie : Tie) (significand : Nat) (exponent : Int) : Nat → Int → Scaled
  | 0, place => ⟨(onGrid? tie significand exponent place).getD 0, place⟩
  | tries + 1, place =>
      match onGrid? tie significand exponent place with
      | some coefficient => ⟨coefficient, place⟩
      | none => firstHit tie significand exponent tries (place - 1)

/-- The shortest decimal that reads back as a positive double.

The search starts on a grid coarser than the number; seventeen digits always
suffice, so it ends within twenty grids. -/
def shortest (tie : Tie) (significand : Nat) (exponent : Int) : Scaled :=
  let start := ((significand.log2 : Int) + 1 + exponent) * 30103 / 100000 + 1
  firstHit tie significand exponent 24 start

end Decimal
end SchemaCompiler
