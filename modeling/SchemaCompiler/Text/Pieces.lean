/-
Texts cut into pieces.

`split` cuts at every separating character and keeps empty pieces, so a text
with `n` separators has `n + 1` pieces.  `lines` cuts after line feeds: a
carriage return directly before the line feed belongs to the line ending, and a
text that ends in a line feed has no empty line after it.
-/

namespace SchemaCompiler
namespace Text

/-- The pieces between separating characters, empty ones included. -/
def split (separates : Char → Bool) : List Char → List (List Char)
  | [] => [[]]
  | c :: rest =>
      if separates c then
        [] :: split separates rest
      else
        match split separates rest with
        | [] => [[c]]
        | piece :: pieces => (c :: piece) :: pieces

/-- The segments of a path-like text, cut at slashes, empty ones included. -/
def segments (s : String) : List String :=
  (split (· == '/') s.toList).map String.ofList

/-- Drops the carriage return that ends a line, the line being given backwards. -/
def dropReturn : List Char → List Char
  | '\r' :: rest => rest
  | reversed => reversed

/-- The lines of the remaining characters, after `reversed` characters of the
line at hand. -/
def linesFrom (reversed : List Char) : List Char → List (List Char)
  | [] => if reversed.isEmpty then [] else [reversed.reverse]
  | '\n' :: rest => (dropReturn reversed).reverse :: linesFrom [] rest
  | c :: rest => linesFrom (c :: reversed) rest

/-- The lines of a text, without their line endings. -/
def lines (s : String) : List String :=
  (linesFrom [] s.toList).map String.ofList

/-- The text before `ending`, if the text ends so. -/
def beforeEnding? (ending text : List Char) : Option (List Char) :=
  if ending.isSuffixOf text then
    some (text.take (text.length - ending.length))
  else
    none

/-- The text after `beginning`, if the text starts so. -/
def afterBeginning? : (beginning text : List Char) → Option (List Char)
  | [], text => some text
  | _ :: _, [] => none
  | b :: beginning, c :: text =>
      if b = c then afterBeginning? beginning text else none

example : segments "a//b/" = ["a", "", "b", ""] := by decide
example : lines "a\r\n\nb\r" = ["a", "", "b\r"] := by decide
example : lines "a\n" = ["a"] := by decide

end Text
end SchemaCompiler
