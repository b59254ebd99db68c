import SchemaCompiler.Artifact.Basic
import SchemaCompiler.Artifact.Settings
import SchemaCompiler.Schema.Collision

/-
Indexes of directories.

The index of a directory exports everything that its other files export: first
the enumerations, which seed rows have none of, and then the tables in order.
-/

namespace SchemaCompiler
namespace IndexModule

open TypeScript (Statement)

/-- The files whose exports an index gathers. -/
def stems (kind : ArtifactKind) (tables : List String) : List String :=
  if kind = .seed then tables else enumsStem :: tables

/-- The statements of an index. -/
def statements (kind : ArtifactKind) (tables : List String) : List Statement :=
  if (stems kind tables).isEmpty then [.nothing]
  else (stems kind tables).map fun stem => .everything ("./" ++ stem)

/-- The index of the directory of a kind, for the files of some tables. -/
def ofKind (settings : Settings) (kind : ArtifactKind) (tables : List String) : Artifact where
  kind := kind
  directory := settings.directory kind
  stem := indexStem
  module :=
    { banner := settings.banner
      imports := []
      paragraphs := [statements kind tables] }

end IndexModule
end SchemaCompiler
