/-
Singular and plural names.

Only the last word of a snake_case name changes, by rules on its ending;
irregular words are not known.  The rules read a word backwards, so that each
ending is a pattern at the front of a list.
-/

namespace SchemaCompiler
namespace Name

/-- Whether a character is a lower-case vowel. -/
def isVowel (c : Char) : Bool :=
  c == 'a' || c == 'e' || c == 'i' || c == 'o' || c == 'u'

/-- The singular of a word, both written backwards.

`ies` becomes `y`; `es` is dropped after `ss`, `sh`, `ch`, `x`, `z` and after
`us` that follows something other than a vowel; words in `ss`, `us` and `is`
stay; any other final `s` is dropped.  A word that is nothing but its ending
stays. -/
def singularBackwards : List Char → List Char
  | ['s', 'e', 'i'] => ['s', 'e', 'i']
  | 's' :: 'e' :: 'i' :: stem => 'y' :: stem
  | 's' :: 'e' :: 's' :: 's' :: stem => 's' :: 's' :: stem
  | 's' :: 'e' :: 'h' :: 's' :: stem => 'h' :: 's' :: stem
  | 's' :: 'e' :: 'h' :: 'c' :: stem => 'h' :: 'c' :: stem
  | 's' :: 'e' :: 'x' :: stem => 'x' :: stem
  | 's' :: 'e' :: 'z' :: stem => 'z' :: stem
  | 's' :: 'e' :: 's' :: 'u' :: c :: stem =>
      if isVowel c then 'e' :: 's' :: 'u' :: c :: stem else 's' :: 'u' :: c :: stem
  | 's' :: 's' :: stem => 's' :: 's' :: stem
  | 's' :: 'u' :: stem => 's' :: 'u' :: stem
  | 's' :: 'i' :: stem => 's' :: 'i' :: stem
  | ['s'] => ['s']
  | 's' :: stem => stem
  | word => word

/-- The singular of a word. -/
def singularWord (word : List Char) : List Char :=
  (singularBackwards word.reverse).reverse

/-- The characters up to and including the last underscore. -/
def leadingWords (name : List Char) : List Char :=
  (name.reverse.dropWhile (· != '_')).reverse

/-- The characters after the last underscore. -/
def lastWord (name : List Char) : List Char :=
  (name.reverse.takeWhile (· != '_')).reverse

/-- The characters of a name with its last word in the singular. -/
def singularChars (name : List Char) : List Char :=
  leadingWords name ++ singularWord (lastWord name)

/-- A name with its last word in the singular: `order_statuses` becomes
`order_status`. -/
def singular (name : String) : String :=
  String.ofList (singularChars name.toList)

/-- A name with an `s` appended, unless it ends in one. -/
def plural (name : String) : String :=
  if name.toList.getLast? = some 's' then name else name ++ "s"

example : singular "categories" = "category" := by decide
example : singular "order_statuses" = "order_status" := by decide
example : singular "houses" = "house" := by decide
example : singular "a_s" = "a_s" := by decide
example : plural "news" = "news" := by decide

end Name
end SchemaCompiler
