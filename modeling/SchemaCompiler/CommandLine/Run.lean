import SchemaCompiler.CommandLine.Arguments
import SchemaCompiler.Descriptor.Load
import SchemaCompiler.File.Tree
import SchemaCompiler.Json.Quoted
import SchemaCompiler.Schema.Compile

/-
Runs of the command line.

A run reads settings, loads the schema, compiles it and answers with a text.
What it needs of the file system is given to it: the text of the file with
settings and the listings of the two directories.  Settings come first, so that
what is wrong with them is reported before anything else.
-/

namespace SchemaCompiler

namespace Schema

/-- Loads a schema below a root and compiles it. -/
def compileBelow (layout : DescriptorLayout) (settings : Settings) (root : String)
    (enums tables : Option Directory) : Except CompileError Compilation := do
  let schema ← (loadBelow layout root enums tables).mapError .load
  schema.compile settings

end Schema

namespace CommandLine

/-- Why a run failed. -/
inductive RunError where
  /-- The arguments are not in order. -/
  | usage
  /-- The schema was not compiled. -/
  | compile (error : CompileError)
  /-- There is no artifact at a path. -/
  | unknownArtifact (path : String)
deriving DecidableEq, Repr

/-- The wording of a failure. -/
def RunError.message : RunError → String
  | usage => "invalid arguments"
  | compile error => error.message
  | unknownArtifact path =>
      "no artifact at '" ++ path ++ "' (use `list` to see generated paths)"

/-- The report of how many artifacts there are. -/
def summary (compilation : Compilation) : String :=
  let counts := ArtifactKind.all.map fun kind =>
    Decimal.natText (compilation.ofKind kind).length ++ " " ++ kind.keyword
  "ok: " ++ Decimal.natText compilation.artifacts.length ++ " artifacts ("
    ++ Text.separated ", " counts ++ ")\n"

/-- The paths of all artifacts, one a line. -/
def pathLines (compilation : Compilation) : String :=
  Text.concat (compilation.paths.map fun path => path ++ "\n")

/-- An artifact in a JSON list. -/
def jsonEntry (artifact : Artifact) : String :=
  "  \x7b\n    \"path\": " ++ Json.quote artifact.path ++ ",\n    \"kind\": "
    ++ Json.quote artifact.kind.keyword ++ ",\n    \"bytes\": "
    ++ Decimal.natText artifact.byteCount ++ "\n  \x7d"

/-- All artifacts as a JSON list. -/
def jsonList (compilation : Compilation) : String :=
  match compilation.artifacts with
  | [] => "[]\n"
  | artifacts => "[\n" ++ Text.separated ",\n" (artifacts.map jsonEntry) ++ "\n]\n"

/-- The answer to a command. -/
def answer (compilation : Compilation) : Command → Except RunError String
  | .check => .ok (summary compilation)
  | .list false => .ok (pathLines compilation)
  | .list true => .ok (jsonList compilation)
  | .print path =>
      match compilation.artifact? path with
      | some artifact => .ok artifact.content
      | none => .error (.unknownArtifact path)

namespace Arguments

/-- Where the descriptors lie. -/
def layout (arguments : Arguments) : DescriptorLayout :=
  DescriptorLayout.withExtension
    ⟨arguments.enumsDirectory, arguments.tablesDirectory, ""⟩ arguments.extension

/-- The path of the directory of enumeration descriptors. -/
def enumsPath (arguments : Arguments) : String :=
  Path.join arguments.root arguments.enumsDirectory

/-- The path of the directory of table descriptors. -/
def tablesPath (arguments : Arguments) : String :=
  Path.join arguments.root arguments.tablesDirectory

/-- The settings before options change them, given the text of the file with
settings. -/
def baseSettings (arguments : Arguments) (configText : Option String) :
    Except SettingsError Settings :=
  match arguments.config, configText with
  | none, _ => .ok .usual
  | some path, none => .error (.unreadable path)
  | some _, some text => Settings.read text

/-- The settings of a run. -/
def settings (arguments : Arguments) (configText : Option String) :
    Except SettingsError Settings := do
  let base ← arguments.baseSettings configText
  let shared := if arguments.workers = 0 then base else base.withWorkers arguments.workers
  return if arguments.noSeeds then shared.withoutSeeds else shared

/-- Compiles what the arguments name. -/
def compile (arguments : Arguments) (configText : Option String)
    (enums tables : Option Directory) : Except CompileError Compilation := do
  let settings ← (arguments.settings configText).mapError .settings
  Schema.compileBelow arguments.layout settings arguments.root enums tables

/-- The answer to a run. -/
def run (arguments : Arguments) (configText : Option String)
    (enums tables : Option Directory) : Except RunError String := do
  let compilation ← (arguments.compile configText enums tables).mapError .compile
  answer compilation arguments.command

/-- The answer to a run on a file tree. -/
def runOn (arguments : Arguments) (tree : FileTree) : Except RunError String :=
  arguments.run (arguments.config.bind tree.text?) (tree.directory? arguments.enumsPath)
    (tree.directory? arguments.tablesPath)

end Arguments

/-- The answer to the words of a command line, on a file tree. -/
def runOn (tree : FileTree) (words : List String) : Except RunError String :=
  match Arguments.parse? words with
  | some arguments => arguments.runOn tree
  | none => .error .usage

end CommandLine
end SchemaCompiler
