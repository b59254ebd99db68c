import SchemaCompiler.Json.Value

/-
Literals of TypeScript.

Strings are single-quoted, with escapes for the backslash, the quote and the
three control characters that have letters of their own; every other character
stands for itself.  A regular expression is its pattern between slashes, with a
backslash before each slash that none precedes.
-/

namespace SchemaCompiler
namespace TypeScript

open Decimal (Binary64)

/-- The written form of a character inside quotes. -/
def escapeChar : Char → List Char
  | '\\' => ['\\', '\\']
  | '\'' => ['\\', '\'']
  | '\n' => ['\\', 'n']
  | '\r' => ['\\', 'r']
  | '\t' => ['\\', 't']
  | c => [c]

/-- The characters of a string literal. -/
def quoteChars (content : List Char) : List Char :=
  '\'' :: content.flatMap escapeChar ++ ['\'']

/-- A string literal. -/
def quote (content : String) : String :=
  String.ofList (quoteChars content.toList)

/-- The characters of a pattern with every bare slash escaped.  `escaped` says
whether a backslash that is not itself escaped comes right before. -/
def escapeSlashes (escaped : Bool) : List Char → List Char
  | [] => []
  | c :: rest =>
      let next := escapeSlashes (c == '\\' && !escaped) rest
      if c == '/' && !escaped then '\\' :: c :: next else c :: next

/-- A regular expression literal. -/
def regex (pattern : String) : String :=
  String.ofList ('/' :: escapeSlashes false pattern.toList ++ ['/'])

/-- Bounds are written without an exponent, and whole ones without a fractional
digit. -/
def boundLayout : Decimal.Layout where
  tie := .up
  positional := none
  keepsFraction := false

/-- A numeric bound; a zero has no sign. -/
def bound (x : Binary64) : String :=
  if x.isZero then "0" else boundLayout.text x

mutual

/-- The characters of the expression for a JSON value. -/
def valueChars : Json.Value → List Char
  | .null => "null".toList
  | .bool value => (if value then "true" else "false").toList
  | .number value => value.text.toList
  | .string value => quoteChars value.toList
  | .array items => '[' :: itemChars items ++ [']']
  | .object [] => ['\x7b', '\x7d']
  | .object (field :: fields) =>
      '\x7b' :: ' ' :: fieldChars (field :: fields) ++ [' ', '\x7d']

/-- The characters of the items of an array. -/
def itemChars : List Json.Value → List Char
  | [] => []
  | [value] => valueChars value
  | value :: rest => valueChars value ++ ',' :: ' ' :: itemChars rest

/-- The characters of the fields of an object. -/
def fieldChars : List (String × Json.Value) → List Char
  | [] => []
  | [(key, value)] => quoteChars key.toList ++ ':' :: ' ' :: valueChars value
  | (key, value) :: rest =>
      quoteChars key.toList ++ ':' :: ' ' :: valueChars value ++ ',' :: ' ' :: fieldChars rest

end

/-- The expression for a JSON value. -/
def value (v : Json.Value) : String :=
  String.ofList (valueChars v)

end TypeScript
end SchemaCompiler
