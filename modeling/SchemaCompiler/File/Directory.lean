import SchemaCompiler.Text.Pieces

/-
Directories as listed.

A listing holds the entries of a directory in whatever order they were
enumerated.  The entries of interest are the regular files with a certain ending,
and they are taken in the order of their names, so the order of enumeration does
not matter.
-/

namespace SchemaCompiler

/-- An entry of a directory. -/
structure DirectoryEntry where
  /-- The name within the directory. -/
  name : String
  /-- Whether the entry is a regular file. -/
  isFile : Bool
  /-- The text of a file that can be read and is proper Unicode text. -/
  text : Option String
deriving DecidableEq, Repr

/-- The entries of a directory, in the order in which they were enumerated. -/
abbrev Directory := List DirectoryEntry

namespace Directory

/-- Whether an entry is a regular file whose name ends in a dot and `extension`. -/
def isWanted (extension : String) (entry : DirectoryEntry) : Bool :=
  entry.isFile && ('.' :: extension.toList).isSuffixOf entry.name.toList

/-- The regular files with the given extension, in the order of their names. -/
def filesWith (extension : String) (directory : Directory) : List DirectoryEntry :=
  (directory.filter (isWanted extension)).mergeSort fun a b => decide (a.name ≤ b.name)

end Directory

end SchemaCompiler
