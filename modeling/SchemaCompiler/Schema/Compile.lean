import SchemaCompiler.Artifact.EnumModule
import SchemaCompiler.Artifact.IndexModule
import SchemaCompiler.Artifact.SeedModule
import SchemaCompiler.Artifact.TypesModule
import SchemaCompiler.Artifact.ValidationModule
import SchemaCompiler.Descriptor.Error
import SchemaCompiler.Schema.WorkPool

/-
Compiling a schema.

A schema is checked table by table, and the first table with issues ends the
compilation.  Then every table is resolved and written, and all faults are
reported together, collisions of names first.  Only a schema without any fault
gives artifacts.
-/

namespace SchemaCompiler

/-- Why a schema was not compiled. -/
inductive CompileError where
  /-- Its descriptors were not loaded. -/
  | load (error : LoadError)
  /-- A table has issues. -/
  | invalid (table : String) (issues : List Issue)
  /-- Code cannot be generated for some tables. -/
  | faults (faults : List Fault)
  /-- The settings were refused. -/
  | settings (error : SettingsError)
deriving DecidableEq, Repr

/-- The wording of an error of loading, where the rule that was broken has one. -/
def LoadError.message (error : LoadError) : String :=
  error.path ++ ": " ++
    match error.problem with
    | .unreadable => "read failed"
    | .malformed => "invalid descriptor"
    | .breach breach => breach.message

/-- The wording of an error of compilation. -/
def CompileError.message : CompileError → String
  | load error => "load error: " ++ error.message
  | invalid table issues =>
      "table '" ++ table ++ "' is invalid: "
        ++ Text.separated "; " (issues.map Issue.message)
  | faults found =>
      Decimal.natText found.length ++ " emission error(s): "
        ++ Text.separated "; " (found.map Fault.text)
  | settings error => "config error: " ++ error.message

/-- The files written for one table. -/
structure TableModules where
  /-- The stem of the files. -/
  stem : String
  /-- The storage definition. -/
  storage : TypeScript.Module
  /-- The validation schemas. -/
  validation : TypeScript.Module
  /-- The types. -/
  types : TypeScript.Module
  /-- The seed rows, if there are any. -/
  seed : Option TypeScript.Module

namespace TableModules

/-- The files written for a resolved table. -/
def ofTable (settings : Settings) (table : ResolvedTable) : TableModules where
  stem := table.names.stem
  storage := StorageModule.ofTable settings table
  validation := ValidationModule.ofTable settings table
  types := TypesModule.ofTable settings table
  seed := SeedModule.ofTable? settings table

/-- The file of a kind. -/
def ofKind? (modules : TableModules) : ArtifactKind → Option TypeScript.Module
  | .storage => some modules.storage
  | .validation => some modules.validation
  | .types => some modules.types
  | .seed => modules.seed

end TableModules

namespace Schema

/-- The files of one table of the schema, or everything at fault with it. -/
def tableModules (schema : Schema) (settings : Settings) (table : Table)
    (others : List Table) : Except (List Fault) TableModules :=
  (table.resolve others schema).map (TableModules.ofTable settings)

/-- The outcome of writing the table with a number. -/
def outcome (schema : Schema) (settings : Settings) (number : Nat) :
    Except (List Fault) TableModules :=
  match schema.tables[number]? with
  | some table => schema.tableModules settings table (schema.tables.eraseIdx number)
  | none => .error []

/-- The faults among outcomes, in order. -/
def faultsOf : List (Except (List Fault) TableModules) → List Fault
  | [] => []
  | .ok _ :: rest => faultsOf rest
  | .error faults :: rest => faults ++ faultsOf rest

/-- The files among outcomes, in order. -/
def modulesOf : List (Except (List Fault) TableModules) → List TableModules
  | [] => []
  | .ok modules :: rest => modules :: modulesOf rest
  | .error _ :: rest => modulesOf rest

/-- The artifacts of a kind for tables, and the index of them. -/
def tableArtifacts (settings : Settings) (kind : ArtifactKind) (tables : List TableModules) :
    List Artifact :=
  let files := tables.filterMap fun table =>
    (table.ofKind? kind).map fun file =>
      (⟨kind, settings.directory kind, table.stem, file⟩ : Artifact)
  files ++ [IndexModule.ofKind settings kind (files.map Artifact.stem)]

/-- The artifact of a kind for enumerations. -/
def enumArtifact (settings : Settings) (kind : ArtifactKind) (file : TypeScript.Module) :
    Artifact :=
  ⟨kind, settings.directory kind, enumsStem, file⟩

/-- All artifacts, in order. -/
def artifacts (schema : Schema) (settings : Settings) (tables : List TableModules) :
    List Artifact :=
  enumArtifact settings .storage (EnumModule.storage settings schema.enumerations)
    :: tableArtifacts settings .storage tables
    ++ enumArtifact settings .validation (EnumModule.validation settings schema.enumerations)
    :: tableArtifacts settings .validation tables
    ++ enumArtifact settings .types (EnumModule.types settings schema.enumerations)
    :: tableArtifacts settings .types tables
    ++ if settings.emitSeeds && tables.any (fun table => table.seed.isSome) then
        tableArtifacts settings .seed tables
      else
        []

/-- The compilation that outcomes of all tables give. -/
def assemble (schema : Schema) (settings : Settings)
    (outcomes : List (Except (List Fault) TableModules)) : Except CompileError Compilation :=
  match schema.collisions ++ faultsOf outcomes with
  | [] => .ok ⟨schema.artifacts settings (modulesOf outcomes)⟩
  | faults => .error (.faults faults)

/-- Compiles a schema. -/
def compile (schema : Schema) (settings : Settings) : Except CompileError Compilation :=
  match schema.firstIssues? with
  | some (table, issues) => .error (.invalid table issues)
  | none =>
      schema.assemble settings <|
        WorkPool.run schema.tables.length settings.workers (schema.outcome settings)

end Schema

end SchemaCompiler
