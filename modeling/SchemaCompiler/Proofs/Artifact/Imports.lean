import SchemaCompiler.Artifact.EnumModule
import SchemaCompiler.Artifact.SeedModule
import SchemaCompiler.Artifact.TypesModule
import SchemaCompiler.Artifact.ValidationModule
import SchemaCompiler.Proofs.Relation.Duality
import SchemaCompiler.Proofs.Schema.Checks

/-
What artifacts import and export.

Apart from packages, the file of a table imports from few places: the file of
enumerations beside it, the files of other tables beside it, and the validation
schemas of its own table.  Each of these exports what is imported from it.
-/

namespace SchemaCompiler

open TypeScript (Import Module Statement)

/-- The packages that generated code imports. -/
def Settings.packages (settings : Settings) : List String :=
  [settings.storageImport, settings.ormImport, settings.validationImport]

theorem TypeScript.Module.mem_exports {file : Module} {paragraph : List Statement}
    {statement : Statement} {name : String} (inFile : paragraph ∈ file.paragraphs)
    (inParagraph : statement ∈ paragraph) (exported : name ∈ statement.exports) :
    name ∈ file.exports :=
  List.mem_flatMap.mpr
    ⟨statement, List.mem_flatten.mpr ⟨paragraph, inFile, inParagraph⟩, exported⟩

theorem Enumeration.mem_of_ofTag? {tag : String} {enumerations : List Enumeration}
    {enumeration : Enumeration} (found : ofTag? tag enumerations = some enumeration) :
    enumeration ∈ enumerations := by
  rcases Option.or_eq_some_iff.mp found with first | ⟨_, second⟩
  · exact List.mem_of_find?_eq_some first
  · exact List.mem_of_find?_eq_some second

/-- A constructor of an enumeration is the constant of an enumeration. -/
theorem Column.enumeration_of_storageType {column : Column} {enumerations : List Enumeration}
    {constant : String} (given : column.storageType enumerations = .enumeration constant) :
    ∃ enumeration ∈ enumerations,
      constant = (EnumNames.ofEnumeration enumeration).storageConst := by
  unfold storageType at given
  split at given
  case h_10 tag _ =>
    split at given
    case h_1 enumeration found =>
      have same := StorageType.enumeration.inj given
      exact ⟨enumeration, Enumeration.mem_of_ofTag? found, same.symm⟩
    case h_2 => cases given
  all_goals cases given

/-- A check against an enumeration names the schema of an enumeration. -/
theorem Column.enumeration_of_validationBase {column : Column}
    {enumerations : List Enumeration} {constant : String}
    (given : column.validationBase enumerations = .enumeration constant) :
    ∃ enumeration ∈ enumerations,
      constant = (EnumNames.ofEnumeration enumeration).schemaConst := by
  unfold validationBase at given
  split at given
  case h_10 tag _ =>
    split at given
    case h_1 enumeration found =>
      have same := ValidationBase.enumeration.inj given
      exact ⟨enumeration, Enumeration.mem_of_ofTag? found, same.symm⟩
    case h_2 => cases given
  all_goals cases given

namespace EnumModule

theorem mem_paragraphs_file {settings : Settings} {imports : List Import}
    {paragraphs : List (List Statement)} {paragraph : List Statement}
    (member : paragraph ∈ paragraphs) :
    paragraph ∈ (file settings imports paragraphs).paragraphs := by
  unfold file
  dsimp only
  split
  case isTrue empty =>
    rw [List.isEmpty_iff.mp empty] at member
    cases member
  case isFalse => exact member

section Exports

variable (settings : Settings) {enumerations : List Enumeration} {enumeration : Enumeration}
  (member : enumeration ∈ enumerations)
include member

theorem storageConst_exported :
    (EnumNames.ofEnumeration enumeration).storageConst ∈
      (storage settings enumerations).exports :=
  Module.mem_exports (mem_paragraphs_file (List.mem_map_of_mem member))
    List.mem_cons_self List.mem_cons_self

theorem schemaConst_exported :
    (EnumNames.ofEnumeration enumeration).schemaConst ∈
      (validation settings enumerations).exports :=
  Module.mem_exports (mem_paragraphs_file (List.mem_map_of_mem member))
    List.mem_cons_self List.mem_cons_self

theorem typeName_exported :
    (EnumNames.ofEnumeration enumeration).typeName ∈
      (validation settings enumerations).exports :=
  Module.mem_exports (mem_paragraphs_file (List.mem_map_of_mem member))
    (List.mem_cons_of_mem _ List.mem_cons_self) List.mem_cons_self

end Exports

end EnumModule

section Exports

variable (settings : Settings) (table : Table) (others : List Table) (schema : Schema)

theorem StorageModule.tableConst_exported :
    (TableNames.ofTable table.name).tableConst ∈
      (StorageModule.ofTable settings (table.resolved others schema)).exports :=
  Module.mem_exports List.mem_cons_self List.mem_cons_self List.mem_cons_self

theorem ValidationModule.baseSchema_exported :
    (TableNames.ofTable table.name).baseSchema ∈
      (ValidationModule.ofTable settings (table.resolved others schema)).exports :=
  Module.mem_exports List.mem_cons_self List.mem_cons_self List.mem_cons_self

theorem ValidationModule.rowTypes_exported {name : String}
    (member : name ∈ TypesModule.rowTypes (.ofTable table.name)) :
    name ∈ (ValidationModule.ofTable settings (table.resolved others schema)).exports := by
  have inFile : acceptedTypes (.ofTable table.name) ∈
      (ValidationModule.ofTable settings (table.resolved others schema)).paragraphs :=
    List.mem_cons_of_mem _ (List.mem_cons_of_mem _ (List.mem_cons_of_mem _ List.mem_cons_self))
  simp only [TypesModule.rowTypes, List.mem_cons, List.not_mem_nil, or_false] at member
  rcases member with rfl | rfl | rfl
  · exact Module.mem_exports inFile List.mem_cons_self List.mem_cons_self
  · exact Module.mem_exports inFile (List.mem_cons_of_mem _ List.mem_cons_self)
      List.mem_cons_self
  · exact Module.mem_exports inFile
      (List.mem_cons_of_mem _ (List.mem_cons_of_mem _ List.mem_cons_self)) List.mem_cons_self

theorem TypesModule.rowTypes_exported {name : String}
    (member : name ∈ TypesModule.rowTypes (.ofTable table.name)) :
    name ∈ (TypesModule.ofTable settings (table.resolved others schema)).exports :=
  Module.mem_exports List.mem_cons_self List.mem_cons_self member

end Exports

theorem Table.exists_reference_of_outgoing {table : Table} {relation : OutgoingRelation}
    (member : relation ∈ table.outgoing) :
    ∃ column reference, (column, reference) ∈ table.references ∧
      relation.targetTable = reference.table := by
  have joined : (relation.column, relation.targetTable, relation.targetColumn) ∈
      table.references.map fun entry => (entry.1.name, entry.2.table, entry.2.column) := by
    rw [← outgoing_joins]
    exact List.mem_map_of_mem member
  obtain ⟨entry, held, same⟩ := List.mem_map.mp joined
  exact ⟨entry.1, entry.2, held, (congrArg (fun joins => joins.2.1) same).symm⟩

theorem Table.exists_outgoing_of_reference {table : Table} {column : Column}
    {reference : ForeignKey} (held : (column, reference) ∈ table.references) :
    ∃ relation ∈ table.outgoing, relation.targetTable = reference.table := by
  have joined : (column.name, reference.table, reference.column) ∈
      table.outgoing.map fun relation =>
        (relation.column, relation.targetTable, relation.targetColumn) := by
    rw [outgoing_joins]
    exact List.mem_map_of_mem held
  obtain ⟨relation, member, same⟩ := List.mem_map.mp joined
  exact ⟨relation, member, congrArg (fun joins => joins.2.1) same⟩

namespace StorageModule

theorem mem_tableImport {own related : TableNames} {entry : Import} :
    entry ∈ tableImport own related ↔
      related.table ≠ own.table ∧ entry = .value ("./" ++ related.stem) related.tableConst := by
  unfold tableImport
  split
  case isTrue same => simp only [List.not_mem_nil, same, ne_eq, not_true_eq_false, false_and]
  case isFalse different =>
    simp only [List.mem_singleton, ne_eq, different, not_false_eq_true, true_and]

section Imports

variable {settings : Settings} {table : Table} {others : List Table} {schema : Schema}
  {entry : Import}

theorem import_of_column {column : Column}
    (member : entry ∈ columnImports settings (column.resolve table schema.enumerations))
    (foreign : entry.source ∉ settings.packages) :
    ∃ enumeration ∈ schema.enumerations,
      entry = .value enumsSource (EnumNames.ofEnumeration enumeration).storageConst := by
  rcases List.mem_cons.mp member with rfl | inSelf
  · cases given : column.storageType schema.enumerations with
    | enumeration constant =>
        obtain ⟨enumeration, declared, same⟩ := Column.enumeration_of_storageType given
        refine ⟨enumeration, declared, ?_⟩
        simp only [Column.resolve, Column.storage, given, StorageType.isEnumeration, if_true,
          StorageType.symbol, same]
    | _ =>
        simp only [Column.resolve, Column.storage, given, StorageType.isEnumeration,
          Bool.false_eq_true, if_false] at foreign
        exact absurd List.mem_cons_self foreign
  · split at inSelf
    · rw [List.mem_singleton.mp inSelf] at foreign
      exact absurd List.mem_cons_self foreign
    · cases inSelf

theorem import_of_relationship (faultless : table.faults schema.tables = [])
    (member : entry ∈ relationsImports settings (table.resolved others schema))
    (foreign : entry.source ∉ settings.packages) :
    ∃ target ∈ schema.tables, entry =
      .value ("./" ++ (TableNames.ofTable target.name).stem)
        (TableNames.ofTable target.name).tableConst := by
  unfold relationsImports at member
  split at member
  · cases member
  · rcases List.mem_cons.mp member with rfl | inRelationships
    · exact absurd (List.mem_cons_of_mem _ List.mem_cons_self) foreign
    · obtain ⟨resolved, inResolved, imported⟩ := List.mem_flatMap.mp inRelationships
      obtain ⟨relationship, declared, rfl⟩ := List.mem_map.mp inResolved
      obtain ⟨target, loaded, named⟩ :=
        Table.exists_target_of_relationship faultless declared
      refine ⟨target, loaded, ?_⟩
      rw [named]
      unfold relationshipImports at imported
      split at imported
      · cases imported
      · exact (mem_tableImport.mp imported).2

theorem import_of_outgoing (faultless : table.faults schema.tables = [])
    (member : entry ∈ (table.resolved others schema).outgoing.flatMap fun relation =>
      tableImport (.ofTable table.name) relation.related) :
    ∃ target ∈ schema.tables, entry =
      .value ("./" ++ (TableNames.ofTable target.name).stem)
        (TableNames.ofTable target.name).tableConst := by
  obtain ⟨resolved, inResolved, imported⟩ := List.mem_flatMap.mp member
  obtain ⟨relation, inOutgoing, rfl⟩ := List.mem_map.mp inResolved
  obtain ⟨column, reference, held, towards⟩ := Table.exists_reference_of_outgoing inOutgoing
  obtain ⟨target, loaded, named, _⟩ := Table.exists_column_of_reference faultless held
  refine ⟨target, loaded, ?_⟩
  rw [named, ← towards]
  exact (mem_tableImport.mp imported).2

/-- Apart from packages, the file of a table imports enumerations and tables from
beside it. -/
theorem import_cases (faultless : table.faults schema.tables = [])
    (member : entry ∈ (ofTable settings (table.resolved others schema)).imports)
    (foreign : entry.source ∉ settings.packages) :
    (∃ enumeration ∈ schema.enumerations,
        entry = .value enumsSource (EnumNames.ofEnumeration enumeration).storageConst) ∨
      ∃ target ∈ schema.tables, entry =
        .value ("./" ++ (TableNames.ofTable target.name).stem)
          (TableNames.ofTable target.name).tableConst := by
  simp only [ofTable, List.mem_cons, List.mem_append] at member
  rcases member with (((rfl | inColumns) | inOutgoing) | inExtras) | inRelations
  · exact absurd List.mem_cons_self foreign
  · obtain ⟨resolved, inResolved, imported⟩ := List.mem_flatMap.mp inColumns
    obtain ⟨column, _, rfl⟩ := List.mem_map.mp inResolved
    exact .inl (import_of_column imported foreign)
  · exact .inr (import_of_outgoing faultless inOutgoing)
  · rcases List.mem_append.mp inExtras with inKey | inIndexes
    · obtain ⟨_, _, rfl⟩ := List.mem_map.mp inKey
      exact absurd List.mem_cons_self foreign
    · obtain ⟨_, _, rfl⟩ := List.mem_map.mp inIndexes
      exact absurd List.mem_cons_self foreign
  · exact .inr (import_of_relationship faultless inRelations foreign)

end Imports

/-- A table that a column refers to is imported, unless it is the same. -/
theorem import_of_reference (settings : Settings) (others : List Table) (schema : Schema)
    {table : Table} {column : Column} {reference : ForeignKey}
    (held : (column, reference) ∈ table.references) (different : reference.table ≠ table.name) :
    Import.value ("./" ++ (TableNames.ofTable reference.table).stem)
        (TableNames.ofTable reference.table).tableConst ∈
      (ofTable settings (table.resolved others schema)).imports := by
  obtain ⟨relation, inOutgoing, towards⟩ := Table.exists_outgoing_of_reference held
  have imported : Import.value ("./" ++ (TableNames.ofTable reference.table).stem)
      (TableNames.ofTable reference.table).tableConst ∈
        (table.resolved others schema).outgoing.flatMap fun relation =>
          tableImport (.ofTable table.name) relation.related := by
    refine List.mem_flatMap.mpr ⟨_, List.mem_map_of_mem inOutgoing, ?_⟩
    simp only [Table.resolveOutgoing, towards]
    exact mem_tableImport.mpr ⟨different, rfl⟩
  apply List.mem_append_left
  apply List.mem_append_left
  exact List.mem_append_right _ imported

end StorageModule

namespace ValidationModule

/-- Apart from packages, the file of a table imports enumerations. -/
theorem import_cases {settings : Settings} {table : Table} {others : List Table}
    {schema : Schema} {entry : Import}
    (member : entry ∈ (ofTable settings (table.resolved others schema)).imports)
    (foreign : entry.source ∉ settings.packages) :
    ∃ enumeration ∈ schema.enumerations, entry =
      .value StorageModule.enumsSource (EnumNames.ofEnumeration enumeration).schemaConst := by
  rcases List.mem_cons.mp member with rfl | inColumns
  · exact absurd (List.mem_cons_of_mem _ (List.mem_cons_of_mem _ List.mem_cons_self)) foreign
  · obtain ⟨resolved, inResolved, imported⟩ := List.mem_flatMap.mp inColumns
    obtain ⟨column, _, rfl⟩ := List.mem_map.mp inResolved
    obtain ⟨constant, isSchema, rfl⟩ := List.mem_map.mp imported
    have given : column.validationBase schema.enumerations = .enumeration constant := by
      have named := Option.mem_toList.mp isSchema
      simp only [Column.resolve, Column.validation] at named
      cases check : column.validationBase schema.enumerations with
      | enumeration other =>
          rw [check] at named
          rw [Option.some.inj named]
      | _ =>
          rw [check] at named
          cases named
    obtain ⟨enumeration, declared, rfl⟩ := Column.enumeration_of_validationBase given
    exact ⟨enumeration, declared, rfl⟩

end ValidationModule

namespace TypesModule

/-- The file of a table imports its own row types from the validation schemas, and
the row types of related tables from beside. -/
theorem import_cases {settings : Settings} {table : Table} {others : List Table}
    {schema : Schema} {entry : Import}
    (placed : (table, others) ∈ schema.tablesWithOthers)
    (faultless : table.faults schema.tables = [])
    (member : entry ∈ (ofTable settings (table.resolved others schema)).imports) :
    (∃ name ∈ rowTypes (.ofTable table.name), entry =
        .type (relativeModule settings.typesDirectory settings.validationDirectory
          (TableNames.ofTable table.name).stem) name) ∨
      ∃ target ∈ schema.tables, entry =
        .type ("./" ++ (TableNames.ofTable target.name).stem)
          (TableNames.ofTable target.name).selectType := by
  rcases List.mem_append.mp member with inOwn | inRelated
  · obtain ⟨name, isRowType, rfl⟩ := List.mem_map.mp inOwn
    exact .inl ⟨name, isRowType, rfl⟩
  · obtain ⟨resolved, inResolved, imported⟩ := List.mem_flatMap.mp inRelated
    have related : ∃ target ∈ schema.tables,
        resolved.related = TableNames.ofTable target.name := by
      rcases List.mem_append.mp inResolved with inOutgoing | inIncoming
      · obtain ⟨relation, isOutgoing, rfl⟩ := List.mem_map.mp inOutgoing
        obtain ⟨column, reference, held, towards⟩ :=
          Table.exists_reference_of_outgoing isOutgoing
        obtain ⟨target, loaded, named, _⟩ := Table.exists_column_of_reference faultless held
        refine ⟨target, loaded, ?_⟩
        rw [named, ← towards]
        rfl
      · obtain ⟨relation, isIncoming, rfl⟩ := List.mem_map.mp inIncoming
        obtain ⟨source, inOthers, _, _, _, _, named, _⟩ :=
          Table.exists_source_of_incoming isIncoming
        refine ⟨source, Schema.others_subset_of_placed placed inOthers, ?_⟩
        rw [← named]
        rfl
    obtain ⟨target, loaded, same⟩ := related
    split at imported
    · cases imported
    · rw [List.mem_singleton.mp imported, same]
      exact .inr ⟨target, loaded, rfl⟩

end TypesModule

theorem SeedModule.import_eq {settings : Settings} {table : Table} {others : List Table}
    {schema : Schema} {file : Module} {entry : Import}
    (written : ofTable? settings (table.resolved others schema) = some file)
    (member : entry ∈ file.imports) :
    entry = .type (relativeModule settings.seedsDirectory settings.validationDirectory
      (TableNames.ofTable table.name).stem) (TableNames.ofTable table.name).insertType := by
  unfold ofTable? at written
  split at written
  · cases written
  · obtain rfl := Option.some.inj written
    exact List.mem_singleton.mp member

theorem EnumModule.import_of_types {settings : Settings} {enumerations : List Enumeration}
    {entry : Import} (member : entry ∈ (EnumModule.types settings enumerations).imports) :
    ∃ enumeration ∈ enumerations, entry =
      .type (relativeModule settings.typesDirectory settings.validationDirectory enumsStem)
        (EnumNames.ofEnumeration enumeration).typeName := by
  obtain ⟨name, isTypeName, rfl⟩ := List.mem_map.mp member
  obtain ⟨enumeration, declared, rfl⟩ := List.mem_map.mp isTypeName
  exact ⟨enumeration, declared, rfl⟩

end SchemaCompiler
