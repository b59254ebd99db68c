/-
Decimal digits of whole numbers.

A number is written with its fewest digits, the most significant first, and a
negative one with a hyphen before them.  Reading is the inverse on digits only:
what a character stands for is asked of one character at a time.
-/

namespace SchemaCompiler
namespace Decimal

/-- A power of two. -/
def twoTo (exponent : Nat) : Nat :=
  Nat.pow 2 exponent

/-- A power of ten. -/
def tenTo (exponent : Nat) : Nat :=
  Nat.pow 10 exponent

/-- The decimal digits of a natural number, the most significant first. -/
def digits (n : Nat) : List Char :=
  Nat.toDigits 10 n

/-- A natural number in decimal. -/
def natText (n : Nat) : String :=
  String.ofList (digits n)

/-- An integer in decimal, with a hyphen before a negative one. -/
def intText (n : Int) : String :=
  if n < 0 then "-" ++ natText n.natAbs else natText n.natAbs

/-- The number that a string of decimal digits stands for, after the digits that
stand for `before`. -/
def valueFrom (before : Nat) : List Char → Nat
  | [] => before
  | c :: rest => valueFrom (10 * before + (c.toNat - '0'.toNat)) rest

/-- The number that a string of decimal digits stands for. -/
def value (ds : List Char) : Nat :=
  valueFrom 0 ds

example : natText 0 = "0" := by decide
example : intText (-120) = "-120" := by decide
example : value ['0', '4', '2'] = 42 := by decide

end Decimal
end SchemaCompiler
