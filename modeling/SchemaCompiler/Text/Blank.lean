/-
Blank characters and the trimming of text.

A character is blank when Unicode gives it the property White_Space.  Trimming
removes blank characters from the ends of a text and never from its inside.

This file knows nothing of lines: a line feed is a blank character like any
other.
-/

namespace SchemaCompiler
namespace Text

/-- The characters with the Unicode property White_Space, as closed ranges of
scalar values. -/
def blankRanges : List (Nat × Nat) :=
  [(0x9, 0xD), (0x20, 0x20), (0x85, 0x85), (0xA0, 0xA0), (0x1680, 0x1680),
    (0x2000, 0x200A), (0x2028, 0x2029), (0x202F, 0x202F), (0x205F, 0x205F),
    (0x3000, 0x3000)]

/-- Whether a character is blank. -/
def isBlank (c : Char) : Bool :=
  blankRanges.any fun range => range.1 ≤ c.toNat && c.toNat ≤ range.2

/-- The characters that remain once blank ones are dropped from the end. -/
def trimEndChars (cs : List Char) : List Char :=
  (cs.reverse.dropWhile isBlank).reverse

/-- The characters that remain once blank ones are dropped from both ends. -/
def trimChars (cs : List Char) : List Char :=
  trimEndChars (cs.dropWhile isBlank)

/-- A text without the blank characters at its two ends. -/
def trim (s : String) : String :=
  String.ofList (trimChars s.toList)

/-- Whether a text is empty or has blank characters only. -/
def isBlankText (s : String) : Bool :=
  s.toList.all isBlank

example : trim "\t a b\u2003\n" = "a b" := by decide
example : isBlankText "\u0085 " = true := by decide
example : isBlank '\u200B' = false := by decide

end Text
end SchemaCompiler
