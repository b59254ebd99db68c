import SchemaCompiler.Text.Pieces

/-
Paths as written.

A path is a text with slashes between its segments; one that begins with a slash
is absolute.  Joining and naming work on the text alone and ask nothing of a file
system.
-/

namespace SchemaCompiler
namespace Path

/-- Whether a path begins with a slash. -/
def isAbsolute (path : String) : Bool :=
  path.toList.head? == some '/'

/-- A path below another one.  An absolute path replaces the one it is joined to,
and no slash is doubled between the two. -/
def join (base path : String) : String :=
  if isAbsolute path || base.isEmpty then path
  else if base.toList.getLast? == some '/' then base ++ path
  else base ++ "/" ++ path

/-- The segments of a path that name something: neither empty nor a single dot. -/
def steps (path : String) : List String :=
  (Text.segments path).filter fun segment => segment != "" && segment != "."

/-- The last segment of a path, unless the path ends in two dots or names
nothing. -/
def fileName? (path : String) : Option String :=
  match (steps path).getLast? with
  | some ".." => none
  | last => last

/-- The file name without an ending of a dot and `extension`, which is kept where
the name has another ending. -/
def stem (extension path : String) : String :=
  let name := (fileName? path).getD ""
  match Text.beforeEnding? ('.' :: extension.toList) name.toList with
  | some chars => String.ofList chars
  | none => name

example : join "a/" "b" = "a/b" := by decide
example : join "a" "" = "a/" := by decide
example : fileName? "a/b/./" = some "b" := by decide
example : stem "json" "x/user.json" = "user" := by decide

end Path
end SchemaCompiler
