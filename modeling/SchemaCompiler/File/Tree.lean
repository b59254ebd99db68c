import SchemaCompiler.File.Directory

/-
File trees.

A tree holds files and directories by their places below a root.  A path is
followed segment by segment: what a further segment follows must be a directory,
two dots lead to the directory above, and nothing above the root can be reached.
-/

namespace SchemaCompiler

/-- Files and directories below a root. -/
structure FileTree where
  /-- The files, by the segments of their places, with the text of those that are
  proper Unicode text. -/
  files : List (List String × Option String)
  /-- Directories that may be empty. -/
  directories : List (List String)
deriving Repr

namespace FileTree

/-- The places of all files and directories. -/
def places (tree : FileTree) : List (List String) :=
  tree.files.map Prod.fst ++ tree.directories

/-- Whether a place is that of a directory: the root, or one that is listed, or one
with something below it. -/
def isDirectory (tree : FileTree) (place : List String) : Bool :=
  place.isEmpty || tree.directories.contains place
    || tree.places.any fun other =>
      place.isPrefixOf other && place.length < other.length

/-- The file at a place; of several, the last. -/
def file? (tree : FileTree) (place : List String) : Option (Option String) :=
  (tree.files.reverse.find? fun file => file.1 == place).map Prod.snd

/-- Follows segments from a place. -/
def follow? (tree : FileTree) (place : List String) : List String → Option (List String)
  | [] => some place
  | segment :: rest =>
      if !tree.isDirectory place then none
      else if segment = "" ∨ segment = "." then tree.follow? place rest
      else if segment = ".." then
        if place.isEmpty then none else tree.follow? place.dropLast rest
      else tree.follow? (place ++ [segment]) rest

/-- The place that a relative path leads to. -/
def place? (tree : FileTree) (path : String) : Option (List String) :=
  if path.isEmpty || path.toList.head? == some '/' then none
  else tree.follow? [] (Text.segments path)

/-- The text of the file at a path. -/
def text? (tree : FileTree) (path : String) : Option String :=
  ((tree.place? path).bind tree.file?).join

/-- The segment of a place that comes right below another place. -/
def childOf? : (above place : List String) → Option String
  | [], name :: _ => some name
  | _, [] => none
  | a :: above, b :: place => if a = b then childOf? above place else none

/-- The entries of the directory at a place. -/
def entries (tree : FileTree) (place : List String) : Directory :=
  (tree.places.filterMap (childOf? place)).eraseDups.map fun name =>
    match tree.file? (place ++ [name]) with
    | some text => ⟨name, true, text⟩
    | none => ⟨name, false, none⟩

/-- The listing of the directory at a path. -/
def directory? (tree : FileTree) (path : String) : Option Directory :=
  match tree.place? path with
  | some place => if tree.isDirectory place then some (tree.entries place) else none
  | none => none

end FileTree

end SchemaCompiler
