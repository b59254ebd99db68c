/-
Kinds of artifacts.

A compilation writes four kinds of files, each into a directory of its own:
storage definitions, validation schemas, types and seed rows.
-/

namespace SchemaCompiler

/-- A kind of artifact. -/
inductive ArtifactKind where
  /-- Storage definitions. -/
  | storage
  /-- Validation schemas. -/
  | validation
  /-- Types. -/
  | types
  /-- Seed rows. -/
  | seed
deriving DecidableEq, Repr

namespace ArtifactKind

/-- The kinds, in the order in which they are written. -/
def all : List ArtifactKind := [storage, validation, types, seed]

/-- The keyword of a kind. -/
def keyword : ArtifactKind → String
  | storage => "storage"
  | validation => "validation"
  | types => "types"
  | seed => "seed"

/-- The kind that a keyword names. -/
def ofKeyword? (keyword : String) : Option ArtifactKind :=
  all.find? fun kind => kind.keyword == keyword

end ArtifactKind

end SchemaCompiler
