import SchemaCompiler.Artifact.Kind
import SchemaCompiler.Json.Record
import SchemaCompiler.Text.Joined
import SchemaCompiler.Text.Pieces

/-
Settings of code generation.

Settings name the packages that generated code imports, the banner of its files,
the directories they go to, whether seed rows are written, and how many workers
share the work.  They can be read from a typed object, all of whose fields have
defaults, and are then checked: every kind of artifact needs a directory of its
own inside the output root.
-/

namespace SchemaCompiler

/-- Settings of code generation. -/
structure Settings where
  /-- The package of storage constructors. -/
  storageImport : String
  /-- The package of `relations`. -/
  ormImport : String
  /-- The package of `z`. -/
  validationImport : String
  /-- The text of the comment that every file starts with. -/
  banner : String
  /-- The number of workers. -/
  workers : Nat
  /-- The directory of storage definitions. -/
  storageDirectory : String
  /-- The directory of validation schemas. -/
  validationDirectory : String
  /-- The directory of types. -/
  typesDirectory : String
  /-- The directory of seed rows. -/
  seedsDirectory : String
  /-- Whether seed rows are written. -/
  emitSeeds : Bool
deriving DecidableEq, Repr

/-- Why settings were refused. -/
inductive SettingsError where
  /-- The file cannot be read. -/
  | unreadable (path : String)
  /-- The text is not JSON, or not what settings may hold. -/
  | malformed
  /-- A kind of artifact has no directory. -/
  | emptyDirectory (kind : ArtifactKind)
  /-- A directory is outside the output root. -/
  | outsideRoot (directory : String)
  /-- Two kinds of artifacts have one directory. -/
  | sharedDirectory (directory : String)
deriving DecidableEq, Repr

/-- The wording of a refusal. -/
def SettingsError.message : SettingsError → String
  | unreadable path => "cannot read " ++ path
  | malformed => "invalid codegen config"
  | emptyDirectory kind => "output directory for " ++ kind.keyword ++ " artifacts is empty"
  | outsideRoot directory => "output directory '" ++ directory ++ "' leaves the output root"
  | sharedDirectory directory =>
      "output directory '" ++ directory ++ "' is used by more than one artifact kind"

namespace Settings

open Json (Value Tree Field)

/-- The usual settings. -/
def usual : Settings where
  storageImport := "drizzle-orm/pg-core"
  ormImport := "drizzle-orm"
  validationImport := "zod"
  banner := "This file is generated by schemaforge. Do not edit it by hand."
  workers := 4
  storageDirectory := "schema"
  validationDirectory := "validation"
  typesDirectory := "types"
  seedsDirectory := "seeds"
  emitSeeds := true

/-- The directory of a kind of artifact. -/
def directory (settings : Settings) : ArtifactKind → String
  | .storage => settings.storageDirectory
  | .validation => settings.validationDirectory
  | .types => settings.typesDirectory
  | .seed => settings.seedsDirectory

/-- Sets the package of storage constructors. -/
def withStorageImport (settings : Settings) (package : String) : Settings :=
  { settings with storageImport := package }

/-- Sets the package of `z`. -/
def withValidationImport (settings : Settings) (package : String) : Settings :=
  { settings with validationImport := package }

/-- Sets the banner. -/
def withBanner (settings : Settings) (banner : String) : Settings :=
  { settings with banner := banner }

/-- Sets the number of workers, of which there is at least one. -/
def withWorkers (settings : Settings) (workers : Nat) : Settings :=
  { settings with workers := max workers 1 }

/-- A text without the slashes at its two ends. -/
def trimSlashes (s : String) : String :=
  let rest := s.toList.dropWhile (· == '/')
  String.ofList (rest.reverse.dropWhile (· == '/')).reverse

/-- Sets the directory of a kind of artifact, without slashes at its ends. -/
def withDirectory (settings : Settings) (kind : ArtifactKind) (directory : String) :
    Settings :=
  let directory := trimSlashes directory
  match kind with
  | .storage => { settings with storageDirectory := directory }
  | .validation => { settings with validationDirectory := directory }
  | .types => { settings with typesDirectory := directory }
  | .seed => { settings with seedsDirectory := directory }

/-- Leaves out seed rows. -/
def withoutSeeds (settings : Settings) : Settings :=
  { settings with emitSeeds := false }

/-- Checks the directories of kinds in order, after some that are in use. -/
def checkDirectories (settings : Settings) (inUse : List String) :
    List ArtifactKind → Except SettingsError Unit
  | [] => .ok ()
  | kind :: rest =>
      let directory := settings.directory kind
      if directory.isEmpty then .error (.emptyDirectory kind)
      else if (Text.segments directory).contains ".." then .error (.outsideRoot directory)
      else if inUse.contains directory then .error (.sharedDirectory directory)
      else checkDirectories settings (directory :: inUse) rest

/-- Checks settings and sees to it that there is a worker. -/
def check (settings : Settings) : Except SettingsError Settings := do
  checkDirectories settings [] ArtifactKind.all
  return settings.withWorkers settings.workers

/-- Reads settings from the tree of a text. -/
def ofTree? (tree : Tree) : Option Settings := do
  let record ← tree.record?
  let text (place : Nat) (key fallback : String) : Option String :=
    record.defaulted? ⟨place, [key]⟩ fallback
      (Tree.through (Json.greatestDepth - 1) Value.text?)
  if record.fits 10 then
    let storageImport ← text 0 "storageImport" usual.storageImport
    let ormImport ← text 1 "ormImport" usual.ormImport
    let validationImport ← text 2 "validationImport" usual.validationImport
    let banner ← text 3 "header" usual.banner
    let workers ←
      record.defaulted? ⟨4, ["workers"]⟩ usual.workers
        (Tree.through (Json.greatestDepth - 1) (Value.natOfBits? 64))
    let storageDirectory ← text 5 "schemaDir" usual.storageDirectory
    let validationDirectory ← text 6 "validationDir" usual.validationDirectory
    let typesDirectory ← text 7 "typesDir" usual.typesDirectory
    let seedsDirectory ← text 8 "seedsDir" usual.seedsDirectory
    let emitSeeds ←
      record.defaulted? ⟨9, ["emitSeeds"]⟩ usual.emitSeeds
        (Tree.through (Json.greatestDepth - 1) Value.bool?)
    return ⟨storageImport, ormImport, validationImport, banner, workers, storageDirectory,
      validationDirectory, typesDirectory, seedsDirectory, emitSeeds⟩
  else
    none

/-- Reads settings from a text and checks them. -/
def read (text : String) : Except SettingsError Settings :=
  match (Tree.read? text).bind ofTree? with
  | some settings => settings.check
  | none => .error .malformed

end Settings

/-- The specifier under which a file of one directory imports a file of another
one. -/
def relativeModule (origin target stem : String) : String :=
  if origin = target then "./" ++ stem
  else
    let depth := ((Text.segments origin).filter fun segment => !segment.isEmpty).length
    Text.concat (List.replicate depth "../") ++ target ++ "/" ++ stem

end SchemaCompiler
