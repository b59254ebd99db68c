import SchemaCompiler.Decimal.Shortest

/-
Written forms of double-precision numbers.

Every form shows the shortest digits that read back.  A `Layout` says where a
decimal point may stand before the form changes to one with an exponent, whether
a whole number keeps a fractional digit, and where midway digits go.
-/

namespace SchemaCompiler
namespace Decimal

/-- How the digits of a double-precision number are set out. -/
structure Layout where
  /-- Where midway digits go. -/
  tie : Tie
  /-- The first and last place of the decimal point, counted from before the
  first digit, at which a number is written without an exponent; without such a
  range no number has an exponent. -/
  positional : Option (Int × Int)
  /-- Whether a whole number ends in `.0`. -/
  keepsFraction : Bool
deriving DecidableEq, Repr

namespace Layout

/-- The characters after the point of a whole number. -/
def wholeEnding (layout : Layout) : List Char :=
  if layout.keepsFraction then ['.', '0'] else []

/-- The digits `ds`, times a power of ten, without an exponent. -/
def positionalChars (layout : Layout) (ds : List Char) (exponent : Int) : List Char :=
  let point : Int := ds.length + exponent
  if 0 ≤ exponent then
    ds ++ List.replicate exponent.toNat '0' ++ layout.wholeEnding
  else if 0 < point then
    ds.take point.toNat ++ '.' :: ds.drop point.toNat
  else
    '0' :: '.' :: List.replicate (-point).toNat '0' ++ ds

/-- The digits `ds`, times a power of ten, with one digit before the point and a
signed exponent without padding. -/
def scientificChars (ds : List Char) (exponent : Int) : List Char :=
  let power : Int := ds.length + exponent - 1
  let mantissa :=
    match ds with
    | [] => []
    | [d] => [d]
    | d :: rest => d :: '.' :: rest
  mantissa ++ 'e' :: (if power < 0 then '-' else '+') :: digits power.natAbs

/-- A decimal, set out as the layout says. -/
def scaledChars (layout : Layout) (x : Scaled) : List Char :=
  let ds := digits x.coefficient
  let point : Int := ds.length + x.exponent
  match layout.positional with
  | none => layout.positionalChars ds x.exponent
  | some (first, last) =>
      if first ≤ point ∧ point ≤ last then layout.positionalChars ds x.exponent
      else scientificChars ds x.exponent

/-- An absolute value, set out as the layout says. -/
def magnitudeChars (layout : Layout) : Magnitude → List Char
  | .infinite => ['i', 'n', 'f']
  | .notANumber => ['N', 'a', 'N']
  | .finite 0 _ => '0' :: layout.wholeEnding
  | .finite significand exponent =>
      layout.scaledChars (shortest layout.tie significand exponent)

/-- The written form of a double-precision number.  What is not a number has no
sign. -/
def text (layout : Layout) (x : Binary64) : String :=
  let chars := layout.magnitudeChars x.magnitude
  String.ofList <|
    if x.isNegative && x.magnitude != .notANumber then '-' :: chars else chars

end Layout

end Decimal
end SchemaCompiler
