/-
Texts put together.

`concat` sets texts one after another, and `separated` with a separator between
each two neighbours.  Both recur on the list, so that what they write can be
reasoned about piece by piece.
-/

namespace SchemaCompiler
namespace Text

/-- Texts one after another. -/
def concat : List String → String
  | [] => ""
  | s :: rest => s ++ concat rest

/-- Texts with a separator between neighbours. -/
def separated (separator : String) : List String → String
  | [] => ""
  | [s] => s
  | s :: rest => s ++ separator ++ separated separator rest

/-- A number of spaces. -/
def spaces (n : Nat) : String :=
  String.ofList (List.replicate n ' ')

example : separated ", " ["a", "b", "c"] = "a, b, c" := by decide
example : separated ", " [] = "" := by decide

end Text
end SchemaCompiler
