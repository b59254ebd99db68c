import Mathlib.Data.List.Perm.Basic
import SchemaCompiler.Proofs.Artifact.Directory
import SchemaCompiler.Proofs.Name.Case
import SchemaCompiler.Proofs.Relation.Names

/-
Roles of exported names.

A name is exported for one of about twenty roles, and is made from the names of a table or
of an enumeration as its role says.  The names that a directory exports are the names of
all roles of all tables and enumerations.  One role never gives the same name twice: what
it adds to a name can be taken off again, and the names it starts from have been claimed
by one table or enumeration each.
-/

namespace SchemaCompiler

open TypeScript (Module)

/-- What an exported name is for. -/
inductive ExportRole where
  | constant
  | relations
  | schema
  | insertSchema
  | updateSchema
  | type
  | insertType
  | updateType
  | listResponse
  | response
  | createRequest
  | updateRequest
  | deleteResponse
  | listParams
  | listDefaults
  | withRelations
  | withRelation (relation : String)
  | option
  | options
  | seed
deriving DecidableEq

/-- What exported names are made from: the storage constant, and the name that all others
share. -/
structure NameStems where
  constant : String
  shared : String

namespace ExportRole

def nameOf (stems : NameStems) : ExportRole → String
  | constant => stems.constant
  | relations => stems.constant ++ "Relations"
  | schema => Name.camel stems.shared ++ "Schema"
  | insertSchema => "insert" ++ Name.pascal stems.shared ++ "Schema"
  | updateSchema => "update" ++ Name.pascal stems.shared ++ "Schema"
  | type => Name.pascal stems.shared
  | insertType => "New" ++ Name.pascal stems.shared
  | updateType => "Update" ++ Name.pascal stems.shared
  | listResponse => Name.pascal stems.shared ++ "ListResponse"
  | response => Name.pascal stems.shared ++ "Response"
  | createRequest => "Create" ++ Name.pascal stems.shared ++ "Request"
  | updateRequest => "Update" ++ Name.pascal stems.shared ++ "Request"
  | deleteResponse => "Delete" ++ Name.pascal stems.shared ++ "Response"
  | listParams => Name.pascal stems.shared ++ "ListParams"
  | listDefaults => Name.camel stems.shared ++ "ListDefaults"
  | withRelations => Name.pascal stems.shared ++ "WithRelations"
  | withRelation relation => Name.pascal stems.shared ++ "With" ++ Name.pascal relation
  | option => "EnumOption"
  | options => Name.camel stems.shared ++ "Options"
  | seed => Name.camel stems.shared ++ "Seed"

/-- A role tells tables and enumerations apart, except that all share one type of options. -/
theorem stems_of_nameOf {left right : NameStems} {role : ExportRole} (owned : role ≠ option)
    (same : role.nameOf left = role.nameOf right) :
    left.constant = right.constant ∨ Name.pascal left.shared = Name.pascal right.shared := by
  cases role with
  | constant => exact Or.inl same
  | relations => exact Or.inl ((String.append_left_inj _).mp same)
  | option => exact absurd rfl owned
  | schema | listDefaults | options | seed =>
      right
      exact Name.pascal_eq_of_camel_eq ((String.append_left_inj _).mp same)
  | type => exact Or.inr same
  | _ =>
      right
      simpa only [nameOf, String.append_assoc, String.append_left_inj, String.append_right_inj]
        using same

end ExportRole

def Table.stems (table : Table) : NameStems :=
  ⟨(TableNames.ofTable table.name).tableConst, (TableNames.ofTable table.name).stem⟩

def Enumeration.stems (enumeration : Enumeration) : NameStems :=
  ⟨(EnumNames.ofEnumeration enumeration).storageConst, enumeration.baseName⟩

/-- The roles that an enumeration has among the exports of a kind. -/
def Enumeration.exportRoles : ArtifactKind → List ExportRole
  | .storage => [.constant]
  | .validation => [.schema, .type]
  | .types => [.type, .options]
  | .seed => []

/-- The roles that a table has among the exports of a kind. -/
def ResolvedTable.exportRoles (table : ResolvedTable) : ArtifactKind → List ExportRole
  | .storage => .constant :: if table.relationships.isEmpty then [] else [.relations]
  | .validation => [.schema, .insertSchema, .updateSchema, .type, .insertType, .updateType]
  | .types =>
      [.type, .insertType, .updateType, .listResponse, .response, .createRequest,
          .updateRequest, .deleteResponse, .listParams]
        ++ (if (TypesModule.listDefaultEntries table).isEmpty then [] else [.listDefaults])
        ++ .withRelations :: table.outgoing.map fun relation => .withRelation relation.name
  | .seed => if table.seed.isEmpty then [] else [.seed]

namespace Compilation

/-- The names that the files of a kind export, each as often as it is exported. -/
def exportsOf (compilation : Compilation) (kind : ArtifactKind) : List String :=
  (compilation.ofKind kind).flatMap fun artifact => artifact.module.exports

end Compilation

theorem IndexModule.exports_eq (settings : Settings) (kind : ArtifactKind)
    (tables : List String) : (ofKind settings kind tables).module.exports = [] := by
  have silent : ∀ statement ∈ statements kind tables, statement.exports = [] := by
    unfold statements
    intro statement member
    split at member
    · rw [List.mem_singleton.mp member]
      rfl
    · obtain ⟨stem, _, rfl⟩ := List.mem_map.mp member
      rfl
  simpa [ofKind, Module.exports] using silent

namespace TypesModule

theorem exports_listDefaults (table : ResolvedTable) :
    (listDefaults table).flatMap TypeScript.Statement.exports =
      if (listDefaultEntries table).isEmpty then [] else [table.names.listDefaults] := by
  unfold listDefaults
  split <;> rfl

theorem exports_withRelations (table : ResolvedTable) :
    (withRelations table).exports = [table.names.withRelations] := by
  unfold withRelations
  split <;> rfl

theorem exports_ofTable (settings : Settings) (table : ResolvedTable) :
    (ofTable settings table).exports =
      rowTypes table.names
        ++ [table.names.listResponse, table.names.response, table.names.createRequest,
          table.names.updateRequest, table.names.deleteResponse, table.names.listParams]
        ++ (if (listDefaultEntries table).isEmpty then [] else [table.names.listDefaults])
        ++ table.names.withRelations :: table.outgoing.map fun relation =>
          table.names.withRelation relation.name := by
  have singles (statements : List TypeScript.Statement) :
      (statements.map fun statement => [statement]).flatten = statements := by
    rw [← List.flatMap_def, List.flatMap_singleton']
  have related : (table.outgoing.map (withRelation table.names)).flatMap
      TypeScript.Statement.exports = table.outgoing.map fun relation =>
        table.names.withRelation relation.name := by
    rw [List.flatMap_map, List.map_eq_flatMap]
    rfl
  rw [Module.exports, ofTable, singles, relationTypes, List.flatMap_append, List.cons_append,
    List.flatMap_cons, List.flatMap_append, List.flatMap_cons, exports_listDefaults,
    List.flatMap_cons, exports_withRelations, related]
  simp only [envelopes, plainInterface, listParams, List.flatMap_cons, List.flatMap_nil,
    TypeScript.Statement.exports, List.append_assoc, List.cons_append, List.nil_append]

end TypesModule

theorem Table.exports_eq (table : Table) (others : List Table) (schema : Schema)
    (settings : Settings) (kind : ArtifactKind) :
    ((TableModules.ofTable settings (table.resolved others schema)).ofKind? kind).toList.flatMap
        Module.exports =
      ((table.resolved others schema).exportRoles kind).map fun role =>
        role.nameOf table.stems := by
  cases kind with
  | storage =>
      simp only [TableModules.ofKind?, TableModules.ofTable, StorageModule.ofTable,
        StorageModule.relationsConstant, ResolvedTable.exportRoles]
      split <;> rfl
  | validation => rfl
  | types =>
      simp only [TableModules.ofKind?, TableModules.ofTable, Option.toList_some,
        List.flatMap_singleton, TypesModule.exports_ofTable, ResolvedTable.exportRoles,
        List.map_append, List.map_cons, List.map_map]
      split <;> rfl
  | seed =>
      simp only [TableModules.ofKind?, TableModules.ofTable, SeedModule.ofTable?,
        ResolvedTable.exportRoles]
      split <;> rfl

namespace EnumModule

theorem exports_file (settings : Settings) (imports : List TypeScript.Import)
    (paragraphs : List (List TypeScript.Statement)) :
    (file settings imports paragraphs).exports =
      paragraphs.flatten.flatMap TypeScript.Statement.exports := by
  cases paragraphs with
  | nil => rfl
  | cons first rest => rfl

end EnumModule

namespace Schema

/-- The tables and enumerations whose names are exported, each by what its names are made
from and by its roles. -/
def exportOwners (schema : Schema) (kind : ArtifactKind) : List (NameStems × List ExportRole) :=
  (schema.enumerations.map fun enumeration =>
      (enumeration.stems, Enumeration.exportRoles kind))
    ++ schema.tablesWithOthers.map fun entry =>
      (entry.1.stems, (entry.1.resolved entry.2 schema).exportRoles kind)

def ownedEntries (schema : Schema) (kind : ArtifactKind) : List (ExportRole × String) :=
  (schema.exportOwners kind).flatMap fun owner =>
    owner.2.map fun role => (role, role.nameOf owner.1)

/-- The type that the options of all enumerations share. -/
def sharedEntries (schema : Schema) (kind : ArtifactKind) : List (ExportRole × String) :=
  if kind = .types ∧ schema.enumerations ≠ [] then [(.option, "EnumOption")] else []

/-- Each exported name with its role. -/
def exportEntries (schema : Schema) (settings : Settings) (kind : ArtifactKind) :
    List (ExportRole × String) :=
  if kind = .seed ∧ settings.emitSeeds = false then []
  else schema.sharedEntries kind ++ schema.ownedEntries kind

theorem mem_ownedEntries {schema : Schema} {kind : ArtifactKind}
    {entry : ExportRole × String} :
    entry ∈ schema.ownedEntries kind ↔
      (∃ enumeration ∈ schema.enumerations, entry.1 ∈ Enumeration.exportRoles kind ∧
        entry.2 = entry.1.nameOf enumeration.stems) ∨
      ∃ placed ∈ schema.tablesWithOthers,
        entry.1 ∈ (placed.1.resolved placed.2 schema).exportRoles kind ∧
          entry.2 = entry.1.nameOf placed.1.stems := by
  obtain ⟨role, name⟩ := entry
  simp only [ownedEntries, exportOwners, List.flatMap_append, List.flatMap_map,
    List.mem_append, List.mem_flatMap, List.mem_map, Prod.mk.injEq]
  constructor
  · rintro (⟨enumeration, member, _, owned, rfl, rfl⟩ | ⟨placed, member, _, owned, rfl, rfl⟩)
    · exact Or.inl ⟨enumeration, member, owned, rfl⟩
    · exact Or.inr ⟨placed, member, owned, rfl⟩
  · rintro (⟨enumeration, member, owned, rfl⟩ | ⟨placed, member, owned, rfl⟩)
    · exact Or.inl ⟨enumeration, member, role, owned, rfl, rfl⟩
    · exact Or.inr ⟨placed, member, role, owned, rfl, rfl⟩

theorem exports_enumModule (schema : Schema) (settings : Settings) (kind : ArtifactKind) :
    ((schema.enumModule? settings kind).toList.flatMap Module.exports).Perm
      ((schema.sharedEntries kind).map Prod.snd ++
        schema.enumerations.flatMap fun enumeration =>
          (Enumeration.exportRoles kind).map fun role => role.nameOf enumeration.stems) := by
  cases kind with
  | storage =>
      apply List.Perm.of_eq
      simp only [enumModule?, EnumModule.storage, EnumModule.exports_file, sharedEntries,
        Option.toList_some, List.flatMap_singleton]
      rw [← List.flatMap_def, List.flatMap_assoc]
      rfl
  | validation =>
      apply List.Perm.of_eq
      simp only [enumModule?, EnumModule.validation, EnumModule.exports_file, sharedEntries,
        Option.toList_some, List.flatMap_singleton]
      rw [← List.flatMap_def, List.flatMap_assoc]
      rfl
  | types =>
      have options : (schema.enumerations.map fun enumeration =>
          [EnumModule.optionsConstant enumeration]).flatten.flatMap
            TypeScript.Statement.exports =
          schema.enumerations.flatMap fun enumeration =>
            [ExportRole.nameOf enumeration.stems .options] := by
        rw [← List.flatMap_def, List.flatMap_assoc]
        rfl
      simp only [enumModule?, EnumModule.types, EnumModule.exports_file, sharedEntries,
        Option.toList_some, List.flatMap_singleton]
      by_cases none : schema.enumerations = []
      · rw [none]
        exact List.Perm.nil
      · rw [if_neg (by simpa using none), if_pos ⟨trivial, none⟩, List.flatten_cons,
          List.flatten_cons, List.flatMap_append, List.flatMap_append, options,
          List.flatMap_singleton, List.flatMap_singleton]
        have pairs := List.map_append_flatMap_perm schema.enumerations
          (fun enumeration => ExportRole.nameOf enumeration.stems .type)
          fun enumeration => [ExportRole.nameOf enumeration.stems .options]
        exact List.perm_middle.trans (pairs.cons "EnumOption")
  | seed =>
      apply List.Perm.of_eq
      simp [enumModule?, sharedEntries, Enumeration.exportRoles]

theorem exports_tableArtifacts (settings : Settings) (kind : ArtifactKind)
    (tables : List TableModules) :
    (tableArtifacts settings kind tables).flatMap (fun artifact => artifact.module.exports) =
      tables.flatMap fun table => (table.ofKind? kind).toList.flatMap Module.exports := by
  rw [tableArtifacts_eq, List.flatMap_append, List.flatMap_singleton, IndexModule.exports_eq,
    List.append_nil, List.filterMap_eq_flatMap_toList, List.flatMap_assoc]
  apply List.flatMap_congr
  intro table _
  unfold tableArtifact?
  cases table.ofKind? kind with
  | none => rfl
  | some file => rfl

theorem exportsOf_perm (schema : Schema) (settings : Settings) (kind : ArtifactKind) :
    ((Compilation.mk (schema.artifacts settings (schema.modules settings))).exportsOf
        kind).Perm ((schema.exportEntries settings kind).map Prod.snd) := by
  have tables : (schema.modules settings).flatMap
        (fun table => (table.ofKind? kind).toList.flatMap Module.exports) =
      schema.tablesWithOthers.flatMap fun entry =>
        ((entry.1.resolved entry.2 schema).exportRoles kind).map fun role =>
          role.nameOf entry.1.stems := by
    rw [modules, List.flatMap_map]
    exact List.flatMap_congr fun entry _ => entry.1.exports_eq entry.2 schema settings kind
  have enums : (((schema.enumModule? settings kind).map
        (enumArtifact settings kind)).toList.flatMap fun artifact => artifact.module.exports) =
      (schema.enumModule? settings kind).toList.flatMap Module.exports := by
    cases schema.enumModule? settings kind with
    | none => rfl
    | some file => rfl
  have entries : (schema.sharedEntries kind ++ schema.ownedEntries kind).map Prod.snd =
      ((schema.sharedEntries kind).map Prod.snd ++
        schema.enumerations.flatMap fun enumeration =>
          (Enumeration.exportRoles kind).map fun role => role.nameOf enumeration.stems) ++
      schema.tablesWithOthers.flatMap fun entry =>
        ((entry.1.resolved entry.2 schema).exportRoles kind).map fun role =>
          role.nameOf entry.1.stems := by
    simp only [ownedEntries, exportOwners, List.map_append, List.flatMap_append,
      List.flatMap_map, List.map_flatMap, List.map_map, List.append_assoc]
    rfl
  have gathered : (((schema.enumModule? settings kind).map
        (enumArtifact settings kind)).toList ++
          tableArtifacts settings kind (schema.modules settings)).flatMap
            (fun artifact => artifact.module.exports) =
      (schema.enumModule? settings kind).toList.flatMap Module.exports ++
        schema.tablesWithOthers.flatMap fun entry =>
          ((entry.1.resolved entry.2 schema).exportRoles kind).map fun role =>
            role.nameOf entry.1.stems := by
    rw [List.flatMap_append, enums, exports_tableArtifacts, tables]
  have both := (schema.exports_enumModule settings kind).append_right
    (schema.tablesWithOthers.flatMap fun entry =>
      ((entry.1.resolved entry.2 schema).exportRoles kind).map fun role =>
        role.nameOf entry.1.stems)
  rw [← gathered, ← entries] at both
  rw [Compilation.exportsOf, ofKind_artifacts, exportEntries]
  by_cases silent : kind = .seed ∧ settings.emitSeeds = false
  · obtain ⟨rfl, off⟩ := silent
    simp [isWritten, off]
  · rw [if_neg silent]
    cases written : isWritten settings (schema.modules settings) kind with
    | true => exact both
    | false =>
        -- Only seed rows may be left out, and here no table has any.
        cases kind with
        | seed =>
            have emitted : settings.emitSeeds = true := by
              simpa using silent
            have seedless : ∀ table ∈ schema.modules settings, table.seed = none := by
              simpa [isWritten, emitted] using written
            have nothing : (schema.modules settings).flatMap
                (fun table => (table.ofKind? .seed).toList.flatMap Module.exports) = [] := by
              apply List.flatMap_eq_nil_iff.mpr
              intro table member
              rw [TableModules.ofKind?, seedless table member]
              rfl
            rw [gathered, ← tables, nothing] at both
            exact both
        | _ => cases written

end Schema
end SchemaCompiler
