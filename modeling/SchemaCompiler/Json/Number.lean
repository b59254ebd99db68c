import SchemaCompiler.Decimal.Layout

/-
Numbers of JSON.

A literal without fraction and exponent that fits 64 bits is a whole number, as
an unsigned word when it is not negative and as a signed one otherwise.  Every
other literal is the nearest double; negative zero is a double.  A literal
beyond the range of doubles denotes no number.
-/

namespace SchemaCompiler
namespace Json

/-- The parts of a number literal. -/
structure NumberLiteral where
  /-- Whether a minus sign comes first. -/
  negative : Bool
  /-- The digits before the point. -/
  whole : List Char
  /-- The digits after the point, none when there is no point. -/
  fraction : List Char
  /-- The exponent's minus sign and digits. -/
  exponent : Option (Bool × List Char)
deriving DecidableEq, Repr

/-- Whether digits may stand before the point: at least one, and no leading
zero before another. -/
def isWholePart : List Char → Bool
  | [] => false
  | ['0'] => true
  | c :: _ => c != '0'

/-- The sign and digits of an exponent, from the characters after its mark. -/
def readExponent? (cs : List Char) : Option (Bool × List Char) :=
  let (negative, ds) :=
    match cs with
    | '-' :: rest => (true, rest)
    | '+' :: rest => (false, rest)
    | _ => (false, cs)
  if !ds.isEmpty && ds.all Char.isDigit then some (negative, ds) else none

/-- The parts of a literal, from what follows the digits before the point. -/
def readTail? (negative : Bool) (whole fraction : List Char) :
    List Char → Option NumberLiteral
  | [] => some ⟨negative, whole, fraction, none⟩
  | c :: rest =>
      if c == 'e' || c == 'E' then
        (readExponent? rest).map fun exponent => ⟨negative, whole, fraction, some exponent⟩
      else
        none

/-- The parts of a literal without its sign. -/
def readUnsigned? (negative : Bool) (cs : List Char) : Option NumberLiteral :=
  let whole := cs.takeWhile Char.isDigit
  if isWholePart whole then
    match cs.dropWhile Char.isDigit with
    | '.' :: rest =>
        let fraction := rest.takeWhile Char.isDigit
        if fraction.isEmpty then none
        else readTail? negative whole fraction (rest.dropWhile Char.isDigit)
    | rest => readTail? negative whole [] rest
  else
    none

/-- The parts of a number literal, if the characters are one. -/
def NumberLiteral.read? : List Char → Option NumberLiteral
  | '-' :: rest => readUnsigned? true rest
  | cs => readUnsigned? false cs

/-- A number of JSON. -/
inductive Number where
  /-- A whole number of at most 64 bits. -/
  | whole (value : Int)
  /-- Any other number, as a double. -/
  | double (value : Decimal.Binary64)
deriving DecidableEq, Repr

namespace Number

/-- Doubles are written positionally from `0.00001` up to below ten to the
sixteenth, and whole ones keep a fractional digit. -/
def layout : Decimal.Layout where
  tie := .even
  positional := some (-4, 16)
  keepsFraction := true

/-- The written form of a number. -/
def text : Number → String
  | .whole value => Decimal.intText value
  | .double value => layout.text value

/-- The nearest double to a literal, if it is in range. -/
def doubleOf? (literal : NumberLiteral) : Option Decimal.Binary64 :=
  let power : Int :=
    match literal.exponent with
    | none => 0
    | some (true, ds) => -(Decimal.value ds : Int)
    | some (false, ds) => Decimal.value ds
  Decimal.Binary64.ofDecimal? literal.negative
    (Decimal.value (literal.whole ++ literal.fraction)) (power - literal.fraction.length)

/-- The whole number a literal denotes, if it has neither fraction nor exponent
and fits 64 bits. -/
def wholeOf? (literal : NumberLiteral) : Option Int :=
  let size := Decimal.value literal.whole
  if literal.fraction.isEmpty && literal.exponent.isNone then
    if literal.negative then
      if 0 < size ∧ size ≤ Decimal.twoTo 63 then some (-(size : Int)) else none
    else
      if size < Decimal.twoTo 64 then some (size : Int) else none
  else
    none

/-- The number a literal denotes. -/
def ofLiteral? (literal : NumberLiteral) : Option Number :=
  match wholeOf? literal with
  | some value => some (.whole value)
  | none => (doubleOf? literal).map .double

/-- A number as a double, whole ones rounded to nearest. -/
def toDouble? : Number → Option Decimal.Binary64
  | .whole value => Decimal.Binary64.ofDecimal? (decide (value < 0)) value.natAbs 0
  | .double value => some value

end Number

end Json
end SchemaCompiler
