import SchemaCompiler.Text.Joined

/-
Imports of generated code.

The symbols a file uses are noted in any order and any number of times.  What is
written depends only on which there are: one line for each package or file and
each kind of import, packages before files, all in order, and in each line the
symbols once each in order.
-/

namespace SchemaCompiler
namespace TypeScript

/-- A symbol that a file imports. -/
structure Import where
  /-- Whether the symbol is imported as a type only. -/
  typeOnly : Bool
  /-- The package or file it comes from. -/
  source : String
  /-- The symbol. -/
  symbol : String
deriving DecidableEq, Repr

/-- The import of a value. -/
def Import.value (source symbol : String) : Import := ⟨false, source, symbol⟩

/-- The import of a type. -/
def Import.type (source symbol : String) : Import := ⟨true, source, symbol⟩

/-- Inserts a text into an ascending list, unless it is there. -/
def insertOnce (s : String) : List String → List String
  | [] => [s]
  | t :: rest =>
      if s < t then s :: t :: rest
      else if t < s then t :: insertOnce s rest
      else t :: rest

/-- The texts of a list, once each and ascending. -/
def ascending (texts : List String) : List String :=
  texts.foldr insertOnce []

/-- Whether a source is a file, that is, starts with a dot. -/
def isRelative (source : String) : Bool :=
  source.toList.head? == some '.'

namespace Imports

/-- The sources of imports, packages first, each in ascending order. -/
def sources (imports : List Import) : List String :=
  let all := ascending (imports.map Import.source)
  all.filter (fun source => !isRelative source) ++ all.filter isRelative

/-- The symbols of one kind that come from one source, ascending. -/
def symbols (imports : List Import) (typeOnly : Bool) (source : String) : List String :=
  ascending <|
    (imports.filter fun entry => entry.typeOnly == typeOnly && entry.source == source).map
      Import.symbol

/-- The line for one kind of import from one source, if there are any. -/
def line (imports : List Import) (typeOnly : Bool) (source : String) : String :=
  match symbols imports typeOnly source with
  | [] => ""
  | found =>
      (if typeOnly then "import type \x7b " else "import \x7b ")
        ++ Text.separated ", " found ++ " \x7d from '" ++ source ++ "';\n"

/-- The import lines, with an empty line after them if there are any. -/
def render (imports : List Import) : String :=
  match sources imports with
  | [] => ""
  | found =>
      Text.concat (found.map fun source =>
        line imports false source ++ line imports true source) ++ "\n"

end Imports

end TypeScript
end SchemaCompiler
