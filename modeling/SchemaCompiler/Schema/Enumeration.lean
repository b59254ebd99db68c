import SchemaCompiler.Text.Pieces

/-
Enumerations.

An enumeration is a named list of members, each with optional display data.  A
column type tag outside the vocabulary means the enumeration of that name, or
failing that the one whose name is the tag with `_enum` after it.
-/

namespace SchemaCompiler

/-- A member of an enumeration. -/
structure Member where
  /-- The stored text. -/
  value : String
  /-- The text shown for it. -/
  label : Option String
  /-- The colour it is shown in. -/
  color : Option String
  /-- The icon shown beside it. -/
  icon : Option String
deriving DecidableEq, Repr

/-- A member without display data. -/
def Member.plain (value : String) : Member :=
  ⟨value, none, none, none⟩

/-- An enumeration. -/
structure Enumeration where
  /-- The name. -/
  name : String
  /-- The members, in order. -/
  members : List Member
  /-- What the enumeration is for. -/
  description : Option String
deriving DecidableEq, Repr

namespace Enumeration

/-- The stored texts of the members, in order. -/
def values (enumeration : Enumeration) : List String :=
  enumeration.members.map Member.value

/-- Whether a text is the stored text of a member. -/
def contains (enumeration : Enumeration) (value : String) : Bool :=
  enumeration.members.any fun member => member.value == value

/-- The ending that names of enumerations may have by convention. -/
def conventionalEnding : String := "_enum"

/-- The name without the conventional ending, which is kept when nothing stands
before it. -/
def baseName (enumeration : Enumeration) : String :=
  match Text.beforeEnding? conventionalEnding.toList enumeration.name.toList with
  | some (c :: rest) => String.ofList (c :: rest)
  | _ => enumeration.name

/-- The first enumeration of a name. -/
def named? (name : String) (enumerations : List Enumeration) : Option Enumeration :=
  enumerations.find? fun enumeration => enumeration.name == name

/-- The enumeration that a type tag means. -/
def ofTag? (tag : String) (enumerations : List Enumeration) : Option Enumeration :=
  (named? tag enumerations).or (named? (tag ++ conventionalEnding) enumerations)

end Enumeration

end SchemaCompiler
