import SchemaCompiler.Artifact.Kind
import SchemaCompiler.TypeScript.Module

/-
Artifacts and compilations.

An artifact is a file of generated code at a place in the output.  A compilation
is the list of all artifacts in the order in which they are written.
-/

namespace SchemaCompiler

/-- A file of generated code at a place in the output. -/
structure Artifact where
  /-- The kind. -/
  kind : ArtifactKind
  /-- The directory. -/
  directory : String
  /-- The file name without its ending. -/
  stem : String
  /-- What the file holds. -/
  module : TypeScript.Module
deriving Repr

namespace Artifact

/-- The path of an artifact within the output. -/
def path (artifact : Artifact) : String :=
  artifact.directory ++ "/" ++ artifact.stem ++ ".ts"

/-- The text of an artifact. -/
def content (artifact : Artifact) : String :=
  artifact.module.render

/-- The length of the text in UTF-8. -/
def byteCount (artifact : Artifact) : Nat :=
  artifact.content.utf8ByteSize

end Artifact

/-- All artifacts of a schema, in order. -/
structure Compilation where
  /-- The artifacts. -/
  artifacts : List Artifact
deriving Repr

namespace Compilation

/-- The first artifact at a path. -/
def artifact? (compilation : Compilation) (path : String) : Option Artifact :=
  compilation.artifacts.find? fun artifact => artifact.path == path

/-- The paths of all artifacts. -/
def paths (compilation : Compilation) : List String :=
  compilation.artifacts.map Artifact.path

/-- The artifacts of a kind. -/
def ofKind (compilation : Compilation) (kind : ArtifactKind) : List Artifact :=
  compilation.artifacts.filter fun artifact => artifact.kind == kind

end Compilation

end SchemaCompiler
