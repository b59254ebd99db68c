import SchemaCompiler.Proofs.Artifact.Imports
import SchemaCompiler.Proofs.Artifact.Origin
import SchemaCompiler.Proofs.Artifact.StorageReads
import SchemaCompiler.Proofs.Artifact.ValidationReads
import SchemaCompiler.Proofs.Schema.Collisions
import SchemaCompiler.Proofs.TypeScript.Exports

/-
Artifacts are closed under what they rely on.

An artifact relies on others by its imports, and on columns of tables by the
members and fields that it names.  After a compilation everything relied on is
there: the import leads to an artifact whose text exports the symbol, and the
member or field is the property of a column of the table that is meant.
-/

namespace SchemaCompiler

open TypeScript (Expr ExportsIn Import Module)

namespace Artifact

/-- Whether a source that is written in one artifact leads to another. -/
def LeadsTo (origin : Artifact) (source : String) (target : Artifact) : Prop :=
  (target.kind = origin.kind ∧ source = "./" ++ target.stem) ∨
    (target.kind ≠ origin.kind ∧
      source = relativeModule origin.directory target.directory target.stem)

/-- Which table a constant in a storage definition stands for: as the parameter of
the function around composite keys and indexes, as the constant that the file
defines, or as one that it imports. -/
inductive Means (origin : Artifact) (scope : List String) (table : Table) : String → Prop
  | parameter (inside : StorageModule.tableParameter ∈ scope)
      (own : origin.stem = (TableNames.ofTable table.name).stem) :
      Means origin scope table "table"
  | own (outside : StorageModule.tableParameter ∉ scope)
      (own : origin.stem = (TableNames.ofTable table.name).stem)
      (defined : (TableNames.ofTable table.name).tableConst ∈ origin.module.exports) :
      Means origin scope table (TableNames.ofTable table.name).tableConst
  | imported (outside : StorageModule.tableParameter ∉ scope)
      (imported : Import.value ("./" ++ (TableNames.ofTable table.name).stem)
        (TableNames.ofTable table.name).tableConst ∈ origin.module.imports) :
      Means origin scope table (TableNames.ofTable table.name).tableConst

/-- Whether an artifact defines the schema of a row of a table. -/
structure Defines (origin : Artifact) (table : Table) (base : String) : Prop where
  own : origin.stem = (TableNames.ofTable table.name).stem
  named : base = (TableNames.ofTable table.name).baseSchema
  defined : base ∈ origin.module.exports

end Artifact

namespace Schema

/-- Artifacts in which everything that they rely on is there. -/
structure Closed (schema : Schema) (settings : Settings) (artifacts : List Artifact) :
    Prop where
  /-- An import leads to an artifact whose text exports the symbol. -/
  imports : ∀ origin ∈ artifacts, ∀ entry ∈ origin.module.imports,
    entry.source ∉ settings.packages →
      ∃ target ∈ artifacts, origin.LeadsTo entry.source target ∧
        ExportsIn target.content entry.symbol
  /-- A member of a constant in a storage definition is a column of the table that
  the constant stands for. -/
  members : ∀ origin ∈ artifacts, origin.kind = .storage → ∀ scope constant property,
    (scope, Expr.access constant property) ∈ origin.module.parts →
      ∃ table ∈ schema.tables, origin.Means scope table constant ∧
        ∃ column ∈ table.columns, property = Name.camel column.name
  /-- A field is taken out of the schema of a row that the same file defines, and is
  a column of its table. -/
  taken : ∀ origin ∈ artifacts, origin.kind = .validation → ∀ scope base field,
    (scope, Expr.member (.access base "shape") field) ∈ origin.module.parts →
      ∃ table ∈ schema.tables, origin.Defines table base ∧
        ∃ column ∈ table.columns, field = Name.camel column.name
  /-- Fields are left out of the schema of a row that the same file defines, and are
  columns of its table. -/
  left : ∀ origin ∈ artifacts, origin.kind = .validation → ∀ scope e owner arguments,
    (scope, e) ∈ origin.module.parts → e.methodCall? = some (owner, "omit", arguments) →
      ∃ table ∈ schema.tables, ∃ base omitted, origin.Defines table base ∧
        owner = .name base ∧ arguments = [.object omitted] ∧
        ∀ field ∈ omitted, ∃ column ∈ table.columns, field.1 = Name.camel column.name
  /-- No two tables have one file or one constant. -/
  owners : (schema.tables.map fun table => (TableNames.ofTable table.name).stem).Nodup ∧
    (schema.tables.map fun table => (TableNames.ofTable table.name).tableConst).Nodup

/-- An index is written from no expressions. -/
theorem not_mem_parts_index (settings : Settings) (kind : ArtifactKind) (stems : List String)
    (part : List String × Expr) :
    part ∉ (IndexModule.ofKind settings kind stems).module.parts := by
  intro member
  refine (@Module.forall_mem_parts _ fun _ _ => False).mpr ?_ part member
  intro paragraph inFile statement inParagraph value written
  rw [List.mem_singleton.mp inFile, IndexModule.statements] at inParagraph
  split at inParagraph
  · rw [List.mem_singleton.mp inParagraph] at written
    cases written
  · obtain ⟨stem, _, rfl⟩ := List.mem_map.mp inParagraph
    cases written

section Compiled

variable {schema : Schema} {settings : Settings}

theorem exists_storageEnums_export {enumeration : Enumeration}
    (declared : enumeration ∈ schema.enumerations) (origin : Artifact)
    (kind : origin.kind = .storage) :
    ∃ target ∈ schema.artifacts settings (schema.modules settings),
      origin.LeadsTo StorageModule.enumsSource target ∧
        ExportsIn target.content (EnumNames.ofEnumeration enumeration).storageConst := by
  refine ⟨_, storageEnums_mem, .inl ⟨kind.symm, rfl⟩, ?_⟩
  exact Module.exports_in_text (EnumModule.storageConst_exported settings declared)

theorem exists_validationEnums_export {enumeration : Enumeration}
    (declared : enumeration ∈ schema.enumerations) (origin : Artifact)
    (kind : origin.kind = .validation) :
    ∃ target ∈ schema.artifacts settings (schema.modules settings),
      origin.LeadsTo StorageModule.enumsSource target ∧
        ExportsIn target.content (EnumNames.ofEnumeration enumeration).schemaConst := by
  refine ⟨_, validationEnums_mem, .inl ⟨kind.symm, rfl⟩, ?_⟩
  exact Module.exports_in_text (EnumModule.schemaConst_exported settings declared)

theorem exists_storage_export {table : Table} (loaded : table ∈ schema.tables)
    (origin : Artifact) (kind : origin.kind = .storage) :
    ∃ target ∈ schema.artifacts settings (schema.modules settings),
      origin.LeadsTo ("./" ++ (TableNames.ofTable table.name).stem) target ∧
        ExportsIn target.content (TableNames.ofTable table.name).tableConst := by
  obtain ⟨others, placed⟩ := exists_placed_of_mem loaded
  have lasting : ArtifactKind.storage ≠ .seed := by decide
  refine ⟨_, table_mem lasting placed rfl, .inl ⟨kind.symm, rfl⟩, ?_⟩
  exact Module.exports_in_text (StorageModule.tableConst_exported settings table others schema)

theorem exists_types_export {table : Table} (loaded : table ∈ schema.tables)
    (origin : Artifact) (kind : origin.kind = .types) :
    ∃ target ∈ schema.artifacts settings (schema.modules settings),
      origin.LeadsTo ("./" ++ (TableNames.ofTable table.name).stem) target ∧
        ExportsIn target.content (TableNames.ofTable table.name).selectType := by
  obtain ⟨others, placed⟩ := exists_placed_of_mem loaded
  have lasting : ArtifactKind.types ≠ .seed := by decide
  refine ⟨_, table_mem lasting placed rfl, .inl ⟨kind.symm, rfl⟩, ?_⟩
  exact Module.exports_in_text
    (TypesModule.rowTypes_exported settings table others schema List.mem_cons_self)

theorem exists_rowType_export {table : Table} (loaded : table ∈ schema.tables)
    (origin : Artifact) (kind : origin.kind ≠ .validation) {name : String}
    (member : name ∈ TypesModule.rowTypes (.ofTable table.name)) :
    ∃ target ∈ schema.artifacts settings (schema.modules settings),
      origin.LeadsTo (relativeModule origin.directory settings.validationDirectory
          (TableNames.ofTable table.name).stem) target ∧
        ExportsIn target.content name := by
  obtain ⟨others, placed⟩ := exists_placed_of_mem loaded
  have lasting : ArtifactKind.validation ≠ .seed := by decide
  refine ⟨_, table_mem lasting placed rfl, .inr ⟨kind.symm, rfl⟩, ?_⟩
  exact Module.exports_in_text
    (ValidationModule.rowTypes_exported settings table others schema member)

/-- What the file of a table imports is there. -/
theorem import_of_table (faultless : ∀ table ∈ schema.tables, table.faults schema.tables = [])
    {table : Table} {others : List Table} (placed : (table, others) ∈ schema.tablesWithOthers)
    {kind : ArtifactKind} {file : Module}
    (written : (TableModules.ofTable settings (table.resolved others schema)).ofKind? kind =
      some file) {entry : Import} (member : entry ∈ file.imports)
    (foreign : entry.source ∉ settings.packages) :
    ∃ target ∈ schema.artifacts settings (schema.modules settings),
      Artifact.LeadsTo
          ⟨kind, settings.directory kind, (TableNames.ofTable table.name).stem, file⟩
          entry.source target ∧
        ExportsIn target.content entry.symbol := by
  have loaded := mem_tables_of_placed placed
  cases kind with
  | storage =>
      obtain rfl := Option.some.inj written
      rcases StorageModule.import_cases (faultless table loaded) member foreign with
        ⟨enumeration, declared, rfl⟩ | ⟨target, targetLoaded, rfl⟩
      · exact exists_storageEnums_export declared _ rfl
      · exact exists_storage_export targetLoaded _ rfl
  | validation =>
      obtain rfl := Option.some.inj written
      obtain ⟨enumeration, declared, rfl⟩ := ValidationModule.import_cases member foreign
      exact exists_validationEnums_export declared _ rfl
  | types =>
      obtain rfl := Option.some.inj written
      have different : ArtifactKind.types ≠ .validation := by decide
      rcases TypesModule.import_cases placed (faultless table loaded) member with
        ⟨name, isRowType, rfl⟩ | ⟨target, targetLoaded, rfl⟩
      · exact exists_rowType_export loaded _ different isRowType
      · exact exists_types_export targetLoaded _ rfl
  | seed =>
      have different : ArtifactKind.seed ≠ .validation := by decide
      obtain rfl := SeedModule.import_eq written member
      exact exists_rowType_export loaded _ different (List.mem_cons_of_mem _ List.mem_cons_self)

theorem imports_lead
    (faultless : ∀ table ∈ schema.tables, table.faults schema.tables = [])
    {origin : Artifact} (member : origin ∈ schema.artifacts settings (schema.modules settings))
    {entry : Import} (imported : entry ∈ origin.module.imports)
    (foreign : entry.source ∉ settings.packages) :
    ∃ target ∈ schema.artifacts settings (schema.modules settings),
      origin.LeadsTo entry.source target ∧ ExportsIn target.content entry.symbol := by
  cases origin_of_mem member with
  | storageEnums =>
      obtain ⟨_, _, rfl⟩ := List.mem_map.mp imported
      exact absurd List.mem_cons_self foreign
  | validationEnums =>
      obtain ⟨_, _, rfl⟩ := List.mem_map.mp imported
      exact absurd (List.mem_cons_of_mem _ (List.mem_cons_of_mem _ List.mem_cons_self)) foreign
  | typesEnums =>
      obtain ⟨enumeration, declared, rfl⟩ := EnumModule.import_of_types imported
      have different : ArtifactKind.validation ≠ .types := by decide
      refine ⟨_, validationEnums_mem, .inr ⟨different, rfl⟩, ?_⟩
      exact Module.exports_in_text (EnumModule.typeName_exported settings declared)
  | table placed written => exact import_of_table faultless placed written imported foreign
  | index kind stems => cases imported

/-- The members that the file of a table reads are columns of the tables meant. -/
theorem sound_means (faultless : ∀ table ∈ schema.tables, table.faults schema.tables = [])
    {table : Table} {others : List Table}
    (placed : (table, others) ∈ schema.tablesWithOthers) :
    StorageModule.Sound table fun scope constant property =>
      ∃ owner ∈ schema.tables,
        Artifact.Means ⟨.storage, settings.directory .storage,
            (TableNames.ofTable table.name).stem,
            StorageModule.ofTable settings (table.resolved others schema)⟩
          scope owner constant ∧
        ∃ column ∈ owner.columns, property = Name.camel column.name where
  referenced column reference held scope outside := by
    have loaded := mem_tables_of_placed placed
    obtain ⟨target, targetLoaded, named, declared, inTarget, sameName⟩ :=
      Table.exists_column_of_reference (faultless table loaded) held
    refine ⟨target, targetLoaded, ?_, declared, inTarget, by rw [sameName]⟩
    by_cases own : reference.table = table.name
    · have sameStem : target.name = table.name := named.trans own
      have meant : Name.camel reference.table = (TableNames.ofTable target.name).tableConst := by
        rw [named]
        rfl
      rw [meant]
      refine .own outside (by rw [sameStem]) ?_
      rw [sameStem]
      exact StorageModule.tableConst_exported settings table others schema
    · have imported := StorageModule.import_of_reference settings others schema held own
      rw [← named] at imported ⊢
      exact .imported outside imported
  referring column declared scope outside := by
    refine ⟨table, mem_tables_of_placed placed, ?_, column, declared, rfl⟩
    exact .own outside rfl (StorageModule.tableConst_exported settings table others schema)
  keyed column declared :=
    ⟨table, mem_tables_of_placed placed, .parameter List.mem_cons_self rfl, column, declared,
      rfl⟩
  indexed index declared name listed := by
    have loaded := mem_tables_of_placed placed
    obtain ⟨column, inTable, rfl⟩ :=
      Table.exists_column_of_index (faultless table loaded) declared listed
    exact ⟨table, loaded, .parameter List.mem_cons_self rfl, column, inTable, rfl⟩

theorem members_declared
    (faultless : ∀ table ∈ schema.tables, table.faults schema.tables = [])
    {origin : Artifact} (member : origin ∈ schema.artifacts settings (schema.modules settings))
    (kind : origin.kind = .storage) {scope : List String} {constant property : String}
    (read : (scope, Expr.access constant property) ∈ origin.module.parts) :
    ∃ table ∈ schema.tables, origin.Means scope table constant ∧
      ∃ column ∈ table.columns, property = Name.camel column.name := by
  cases origin_of_mem member with
  | storageEnums => exact absurd read (StorageModule.not_mem_enums _ _ _ _ _)
  | validationEnums => cases kind
  | typesEnums => cases kind
  | @table table others _ _ placed written =>
      cases kind
      obtain rfl := Option.some.inj written
      exact (sound_means faultless placed).ofTable others schema settings read
  | index _ stems => exact absurd read (not_mem_parts_index _ _ _ _)

theorem fields_declared {origin : Artifact}
    (member : origin ∈ schema.artifacts settings (schema.modules settings))
    (kind : origin.kind = .validation) {part : List String × Expr}
    (inFile : part ∈ origin.module.parts) :
    ValidationModule.Narrows
      (fun base field => ∃ table ∈ schema.tables, origin.Defines table base ∧
        ∃ column ∈ table.columns, field = Name.camel column.name)
      (fun owner arguments => ∃ table ∈ schema.tables, ∃ base omitted,
        origin.Defines table base ∧ owner = .name base ∧ arguments = [.object omitted] ∧
        ∀ field ∈ omitted, ∃ column ∈ table.columns, field.1 = Name.camel column.name)
      part.2 := by
  cases origin_of_mem member with
  | storageEnums => cases kind
  | validationEnums =>
      refine (ValidationModule.narrows_enums settings _ inFile).mono ?_ ?_
      · intro base field impossible
        exact impossible.elim
      · intro owner arguments impossible
        exact impossible.elim
  | typesEnums => cases kind
  | @table table others _ _ placed written =>
      cases kind
      obtain rfl := Option.some.inj written
      have loaded := mem_tables_of_placed placed
      have defined := ValidationModule.baseSchema_exported settings table others schema
      have declared {field : String} (property : field ∈ table.columnProperties) :
          ∃ column ∈ table.columns, field = Name.camel column.name := by
        obtain ⟨column, inTable, same⟩ := List.mem_map.mp property
        exact ⟨column, inTable, same.symm⟩
      refine (ValidationModule.narrows_ofTable table others schema settings inFile).mono ?_ ?_
      · rintro base field ⟨rfl, property⟩
        exact ⟨table, loaded, ⟨rfl, rfl, defined⟩, declared property⟩
      · rintro owner arguments ⟨rfl, omitted, rfl, properties⟩
        exact ⟨table, loaded, _, omitted, ⟨rfl, rfl, defined⟩, rfl, rfl,
          fun field inOmitted => declared (properties field inOmitted)⟩
  | index _ stems => exact absurd inFile (not_mem_parts_index _ _ _ _)

end Compiled

theorem compile_closed (schema : Schema) (settings : Settings) {compilation : Compilation}
    (compiled : schema.compile settings = .ok compilation) :
    schema.Closed settings compilation.artifacts := by
  obtain ⟨_, clean, faultless, rfl⟩ := compile_eq_ok_iff.mp compiled
  constructor
  · intro origin member entry imported foreign
    exact imports_lead faultless member imported foreign
  · intro origin member kind scope constant property read
    exact members_declared faultless member kind read
  · intro origin member kind scope base field inFile
    exact (fields_declared member kind inFile).taken base field rfl
  · intro origin member kind scope e owner arguments inFile called
    exact (fields_declared member kind inFile).left owner arguments called
  · exact ⟨nodup_stems clean, nodup_tableConsts clean⟩

/-- Patients and their visits, which have a state, an index, and a relationship with
patients beside a reference to the visit before. -/
def clinic : Schema where
  enumerations := [⟨"visit_state", [.plain "open", .plain "done"], none⟩]
  tables :=
    [{ Table.plain "patients" with columns := [Column.plain "id" .autoIncrement] },
      { Table.plain "visits" with
        columns :=
          [Column.plain "id" .autoIncrement,
            { Column.plain "patient_id" .integer with
              reference := some ⟨"patients", "id", .cascade⟩ },
            { Column.plain "earlier_visit_id" .integer with
              reference := some ⟨"visits", "id", .setNull⟩ },
            Column.plain "state" (.named "visit_state")]
        indexes := [⟨"visits_by_patient", ["patient_id"], false⟩]
        relationships := [⟨"patient", .oneToOne, "patients", none⟩] }]

theorem compile_closed_of_clinic : ∃ compilation,
    clinic.compile .usual = .ok compilation ∧ clinic.Closed .usual compilation.artifacts := by
  have compiled : clinic.compile .usual =
      .ok ⟨clinic.artifacts .usual (clinic.modules .usual)⟩ := by
    apply compile_eq_ok_iff.mpr
    refine ⟨?_, ?_, ?_, rfl⟩
    · decide
    · decide
    · decide
  exact ⟨_, compiled, compile_closed clinic .usual compiled⟩

end Schema
end SchemaCompiler
