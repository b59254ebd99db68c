import SchemaCompiler.CommandLine.Run

/-
The command line program.

This is the outer layer: it reads the files that a run needs, and prints its
answer or the reason of its failure.
-/

namespace SchemaCompiler
namespace CommandLine

/-- The text of a file, if it can be read and is proper Unicode text. -/
def readText? (path : String) : IO (Option String) := do
  try
    return String.fromUTF8? (← IO.FS.readBinFile path)
  catch _ =>
    return none

/-- Whether an entry of a directory is a regular file. -/
def isRegularFile (found : IO.FS.DirEntry) : IO Bool := do
  try
    return (← found.path.metadata).type == .file
  catch _ =>
    return false

/-- The listing of a directory, if there is one.  Only files of interest are
read. -/
def listDirectory? (extension path : String) : IO (Option Directory) := do
  let place := System.mkFilePath [path]
  if !(← place.isDir) then
    return none
  let mut listing : Directory := []
  for found in ← place.readDir do
    let entry : DirectoryEntry := ⟨found.fileName, ← isRegularFile found, none⟩
    if Directory.isWanted extension entry then
      listing := { entry with text := ← readText? (Path.join path found.fileName) } :: listing
  return some listing

/-- Runs the words of a command line on the file system. -/
def execute (words : List String) : IO (Except RunError String) := do
  match Arguments.parse? words with
  | none => return .error .usage
  | some arguments =>
      let extension := arguments.layout.extension
      let configText ←
        match arguments.config with
        | none => pure none
        | some path => readText? path
      let enums ← listDirectory? extension arguments.enumsPath
      let tables ← listDirectory? extension arguments.tablesPath
      return arguments.run configText enums tables

end CommandLine
end SchemaCompiler

/-- Prints the answer of a run, or why it failed. -/
def main (words : List String) : IO UInt32 := do
  match ← SchemaCompiler.CommandLine.execute words with
  | .ok text =>
      IO.print text
      return 0
  | .error error =>
      IO.eprintln ("Error: " ++ error.message)
      return 1
