import SchemaCompiler.Proofs.Artifact.Directory
import SchemaCompiler.Proofs.Artifact.ValidationReads
import SchemaCompiler.Proofs.Name.Snake
import SchemaCompiler.Proofs.Schema.Loading
import SchemaCompiler.Proofs.TypeScript.ObjectKeys

/-
Keys of generated objects.

The objects written for a table have its columns, its composite key and its indexes, or its
declared relationships under keys, which are the camelCase of their names.  Names that differ
may have one camelCase, and an index may be called what the composite key is: then the object
keeps one of the two only.  This is all that can be lost, and nothing is where names are in
snake_case and no index takes the key of the composite key.
-/

namespace SchemaCompiler

open TypeScript (Entry Expr Module Statement)

namespace Table

/-- The key that a composite key has beside the indexes. -/
def compositeKeyName : String := "pk"

/-- The keys of the composite key and the indexes. -/
def extraKeys (table : Table) : List String :=
  (table.compositeKey?.toList.map fun _ => compositeKeyName) ++
    table.indexes.map fun index => Name.camel index.name

/-- The keys of the declared relationships that are written out. -/
def relationKeys (table : Table) : List String :=
  (table.relationships.filter fun relationship => relationship.kind != .manyToMany).map
    fun relationship => Name.camel relationship.name

/-- No two columns of a table share a key, and neither do its indexes and its composite key,
or its relationships. -/
structure KeysApart (table : Table) : Prop where
  columns : table.columnProperties.Nodup
  extras : table.extraKeys.Nodup
  relations : table.relationKeys.Nodup

/-- The names of a table that become keys are in snake_case, and no index is called what a
composite key is. -/
structure SnakeNames (table : Table) : Prop where
  columns : ∀ column ∈ table.columns, Name.isSnake column.name = true
  indexes : ∀ index ∈ table.indexes, Name.isSnake index.name = true
  relationships : ∀ relationship ∈ table.relationships, Name.isSnake relationship.name = true
  unused : table.compositeKey?.isSome = true →
    ∀ index ∈ table.indexes, index.name ≠ compositeKeyName

theorem nodup_camel {α : Type} {name : α → String} {items : List α}
    (distinct : (items.map name).Nodup) (snake : ∀ item ∈ items, Name.isSnake (name item) = true) :
    (items.map fun item => Name.camel (name item)).Nodup := by
  apply nodup_map_of_finer distinct
  intro left inLeft right inRight same
  exact Name.camel_injective_of_snake (snake left inLeft) (snake right inRight) same

theorem keysApart_of_snake {table : Table} (admitted : table.Admitted)
    (snake : table.SnakeNames) : table.KeysApart := by
  have indexes := nodup_camel admitted.nodup_indexes snake.indexes
  constructor
  · exact nodup_camel admitted.nodup_columns snake.columns
  · rw [extraKeys]
    cases key : table.compositeKey? with
    | none => exact indexes
    | some columns =>
        refine List.nodup_cons.mpr ⟨?_, indexes⟩
        intro taken
        obtain ⟨index, member, same⟩ := List.mem_map.mp taken
        have usual : Name.camel compositeKeyName = compositeKeyName := by decide
        have named : index.name = compositeKeyName :=
          Name.camel_injective_of_snake (snake.indexes index member) (by decide)
            (same.trans usual.symm)
        exact snake.unused (by rw [key]; rfl) index member named
  · have names := nodup_camel admitted.nodup_relationships snake.relationships
    exact (List.filter_sublist.map _).nodup names

end Table

section Columns

variable {scope : List String}

@[simp] theorem keepsKeys_onto {owner : Expr} {modifier : StorageModifier} :
    (modifier.onto owner).KeepsKeys scope ↔ owner.KeepsKeys scope := by
  cases modifier <;> simp [StorageModifier.onto]

theorem keepsKeys_foldl_onto {modifiers : List StorageModifier} {owner : Expr} :
    (modifiers.foldl StorageModifier.onto owner).KeepsKeys scope ↔ owner.KeepsKeys scope := by
  induction modifiers generalizing owner with
  | nil => rfl
  | cons modifier rest ih => rw [List.foldl_cons, ih, keepsKeys_onto]

theorem nodup_storageOptions (column : Column) :
    (column.storageOptions.map Prod.fst).Nodup := by
  unfold Column.storageOptions
  split <;> simp

theorem keepsKeys_storageColumn (column : Column) (table : Table) (enumerations : List Enumeration)
    (name : String) : ((column.storage table enumerations).expr name).KeepsKeys scope := by
  have options := nodup_storageOptions column
  rw [StorageColumn.expr, keepsKeys_foldl_onto, TypeScript.keepsKeys_apply,
    List.forall_mem_cons]
  refine ⟨TypeScript.keepsKeys_string name, ?_⟩
  split
  · exact nofun
  · rw [List.forall_mem_singleton, TypeScript.keepsKeys_object, List.map_map]
    refine ⟨options, ?_⟩
    intro field member
    obtain ⟨option, _, rfl⟩ := List.mem_map.mp member
    exact TypeScript.keepsKeys_verbatim option.2

theorem keepsKeys_validationChain (chain : ValidationChain) : chain.expr.KeepsKeys scope := by
  have each (refinements : List Refinement) (owner : Expr) (kept : owner.KeepsKeys scope) :
      (refinements.foldl Refinement.onto owner).KeepsKeys scope := by
    induction refinements generalizing owner with
    | nil => exact kept
    | cons refinement rest ih =>
        apply ih
        cases refinement <;> simp [Refinement.onto, Refinement.comparison, kept]
  apply each
  cases chain.base <;> simp [ValidationBase.expr, ValidationBase.patternExpr]

end Columns

theorem keepsKeys_cell {scope : List String} (type : ColumnType) (value : Json.Value) :
    (SeedModule.cellExpr type value).KeepsKeys scope := by
  unfold SeedModule.cellExpr
  split <;> simp

/-- The cells of a seed row stand in the order of the columns. -/
theorem seedKeys_sublist (row : SeedRow) (key : Column → String) (before columns : List Column) :
    ((Table.cellsFrom row before.length columns).filterMap fun cell =>
      (before ++ columns)[cell.1]?.map key).Sublist (columns.map key) := by
  -- Cells have positions in the whole row, so the columns that are passed are kept at hand.
  induction columns generalizing before with
  | nil => exact List.Sublist.refl []
  | cons column rest ih =>
      have later := ih (before ++ [column])
      rw [List.length_append, List.length_singleton, List.append_assoc,
        List.singleton_append] at later
      have here : (before ++ column :: rest)[before.length]? = some column := by simp
      rw [Table.cellsFrom]
      split
      · rw [List.filterMap_cons, here]
        exact later.cons_cons (key column)
      · exact later.cons (key column)

section Tables

variable (settings : Settings) (table : Table) (others : List Table) (schema : Schema)

theorem map_property_columns :
    ((table.resolved others schema).columns.map ResolvedColumn.property) =
      table.columnProperties := by
  rw [Table.resolved, List.map_map]
  rfl

theorem keys_columnEntries :
    (StorageModule.columnEntries (table.resolved others schema)).flatMap Entry.keys =
      table.columnProperties := by
  rw [StorageModule.columnEntries, TypeScript.keys_of_fields, map_property_columns]

theorem keys_extraEntries :
    (StorageModule.extraEntries (table.resolved others schema)).flatMap Entry.keys =
      table.extraKeys := by
  rw [StorageModule.extraEntries, List.flatMap_append, Table.extraKeys]
  congr 1
  · show ((table.compositeKey?.map _).toList.map StorageModule.keyEntry).flatMap _ = _
    cases table.compositeKey? <;> rfl
  · show ((table.indexes.map Table.resolveIndex).map _).flatMap _ = _
    rw [List.map_map, List.flatMap_map, List.map_eq_flatMap]
    rfl

theorem keepsKeys_extraEntries {scope : List String} :
    ∀ entry ∈ StorageModule.extraEntries (table.resolved others schema),
      entry.KeepsKeys scope := by
  rw [StorageModule.extraEntries, List.forall_mem_append, List.forall_mem_map,
    List.forall_mem_map]
  constructor
  · intro properties _
    simp [StorageModule.keyEntry]
  · intro index _
    simp [StorageModule.indexEntry]

theorem keepsKeys_columnEntries {scope : List String} :
    ∀ entry ∈ StorageModule.columnEntries (table.resolved others schema),
      entry.KeepsKeys scope := by
  rw [StorageModule.columnEntries, List.forall_mem_map, Table.resolved, List.forall_mem_map]
  intro column _
  exact keepsKeys_storageColumn column table schema.enumerations _

theorem keepsKeys_tableConstant_iff :
    (∀ value ∈ (StorageModule.tableConstant (table.resolved others schema)).values,
      value.KeepsKeys []) ↔ table.columnProperties.Nodup ∧ table.extraKeys.Nodup := by
  have columns : (Expr.objectBlock (StorageModule.columnEntries
      (table.resolved others schema))).KeepsKeys [] ↔ table.columnProperties.Nodup := by
    rw [TypeScript.keepsKeys_objectBlock, keys_columnEntries]
    exact and_iff_left (keepsKeys_columnEntries table others schema)
  have extras (scope : List String) : (Expr.objectBlock (StorageModule.extraEntries
      (table.resolved others schema))).KeepsKeys scope ↔ table.extraKeys.Nodup := by
    rw [TypeScript.keepsKeys_objectBlock, keys_extraEntries]
    exact and_iff_left (keepsKeys_extraEntries table others schema)
  rw [StorageModule.tableConstant, Statement.values, List.forall_mem_singleton,
    TypeScript.keepsKeys_apply, List.forall_mem_cons, List.forall_mem_cons, columns]
  split
  case isTrue none =>
    have empty : table.extraKeys = [] := by
      rw [← keys_extraEntries table others schema, List.isEmpty_iff.mp none]
      rfl
    simp [empty]
  case isFalse => simp [extras]

theorem keys_relationshipEntries :
    ((table.resolved others schema).relationships.map
        (StorageModule.relationshipEntry (table.resolved others schema).names)).flatMap
          Entry.keys =
      table.relationKeys := by
  rw [Table.relationKeys, List.flatMap_map]
  show (table.relationships.map table.resolveRelationship).flatMap _ = _
  rw [List.flatMap_map]
  induction table.relationships with
  | nil => rfl
  | cons relationship rest ih =>
      rw [List.flatMap_cons, ih, List.filter_cons]
      cases kind : relationship.kind <;>
        simp [StorageModule.relationshipEntry, Table.resolveRelationship, kind, Entry.keys]

theorem keepsKeys_relationshipEntry {scope : List String} (own : TableNames)
    (relationship : ResolvedRelationship) :
    (StorageModule.relationshipEntry own relationship).KeepsKeys scope := by
  unfold StorageModule.relationshipEntry
  split
  · rw [Entry.KeepsKeys, TypeScript.keepsKeys_apply, List.forall_mem_cons, List.forall_mem_map]
    refine ⟨TypeScript.keepsKeys_name _, ?_⟩
    intro link _
    simp [Entry.keys]
  · simp
  · trivial

theorem keepsKeys_relationsConstant_iff :
    (∀ statement ∈ StorageModule.relationsConstant (table.resolved others schema),
      ∀ value ∈ statement.values, value.KeepsKeys []) ↔ table.relationKeys.Nodup := by
  unfold StorageModule.relationsConstant
  split
  case isTrue none =>
    have empty : table.relationKeys = [] := by
      have noRelationships : table.relationships = [] := by
        simpa [Table.resolved] using none
      rw [Table.relationKeys, noRelationships]
      rfl
    simp [empty]
  case isFalse =>
    rw [List.forall_mem_singleton, Statement.values, List.forall_mem_singleton,
      TypeScript.keepsKeys_apply, List.forall_mem_cons, List.forall_mem_singleton,
      TypeScript.keepsKeys_arrow, TypeScript.keepsKeys_grouped,
      TypeScript.keepsKeys_objectBlock, keys_relationshipEntries,
      and_iff_right (TypeScript.keepsKeys_name _), List.forall_mem_map]
    exact and_iff_left fun relationship _ => keepsKeys_relationshipEntry _ relationship

theorem keepsKeys_storageFile_iff :
    (StorageModule.ofTable settings (table.resolved others schema)).KeepsKeys ↔
      table.KeysApart := by
  rw [Module.keepsKeys_iff, StorageModule.ofTable, List.forall_mem_cons,
    List.forall_mem_singleton, keepsKeys_tableConstant_iff]
  simp only [List.forall_mem_map, List.forall_mem_singleton, keepsKeys_relationsConstant_iff]
  constructor
  · rintro ⟨⟨columns, extras⟩, relations⟩
    exact ⟨columns, extras, relations⟩
  · rintro ⟨columns, extras, relations⟩
    exact ⟨⟨columns, extras⟩, relations⟩

section Distinct

variable (distinct : table.columnProperties.Nodup)
include distinct

theorem keepsKeys_omitting {scope : List String} {owner : Expr} (kept : owner.KeepsKeys scope)
    {fields : List String} (sub : fields.Sublist table.columnProperties) :
    (ValidationModule.omitting owner fields).KeepsKeys scope := by
  unfold ValidationModule.omitting
  split
  · exact kept
  · simp [kept, Function.comp_def, sub.nodup distinct]

theorem keepsKeys_baseConstant :
    ∀ value ∈ (ValidationModule.baseConstant (table.resolved others schema)).values,
      value.KeepsKeys [] := by
  have columns := map_property_columns table others schema
  simp [ValidationModule.baseConstant, Statement.values, columns, distinct, keepsKeys_validationChain]

theorem keepsKeys_insertConstant :
    ∀ value ∈ (ValidationModule.insertConstant (table.resolved others schema)).values,
      value.KeepsKeys [] := by
  rw [ValidationModule.insertConstant, Statement.values, List.forall_mem_singleton]
  have omitted : (ValidationModule.omitting (.name (TableNames.ofTable table.name).baseSchema)
      (table.fieldSets schema.enumerations).omitted).KeepsKeys [] :=
    keepsKeys_omitting table distinct (TypeScript.keepsKeys_name _)
      (ValidationModule.omitted_sublist table schema)
  have widened := (ValidationModule.widened_sublist table schema).nodup distinct
  unfold ValidationModule.widening
  split
  · exact omitted
  · rw [TypeScript.keepsKeys_callBelow, List.forall_mem_singleton]
    refine ⟨omitted, ?_⟩
    show (Expr.objectBlock ((table.fieldSets schema.enumerations).widened.map _)).KeepsKeys _
    simp [ValidationModule.fieldSchema, widened]

theorem keepsKeys_updateConstant :
    ∀ value ∈ (ValidationModule.updateConstant (table.resolved others schema)).values,
      value.KeepsKeys [] := by
  rw [ValidationModule.updateConstant, Statement.values, List.forall_mem_singleton]
  have key := (ValidationModule.primaryKey_sublist table schema).nodup distinct
  split
  · simp
  · rw [TypeScript.keepsKeys_method, List.forall_mem_singleton]
    refine ⟨by simp, ?_⟩
    show (Expr.objectBlock ((table.fieldSets schema.enumerations).primaryKey.map _)).KeepsKeys _
    simp [ValidationModule.fieldSchema, key]

theorem keepsKeys_validationFile :
    (ValidationModule.ofTable settings (table.resolved others schema)).KeepsKeys := by
  rw [Module.keepsKeys_iff, ValidationModule.ofTable]
  simp only [List.forall_mem_cons, List.not_mem_nil, false_imp_iff, implies_true, and_true]
  refine ⟨keepsKeys_baseConstant table others schema distinct,
    keepsKeys_insertConstant table others schema distinct,
    keepsKeys_updateConstant table others schema distinct, ?_⟩
  simp [ValidationModule.acceptedTypes, ValidationModule.acceptedType, Statement.values]

theorem keepsKeys_seedFile {file : Module}
    (written : SeedModule.ofTable? settings (table.resolved others schema) = some file) :
    file.KeepsKeys := by
  unfold SeedModule.ofTable? at written
  split at written
  · cases written
  · cases written
    rw [Module.keepsKeys_iff, List.forall_mem_singleton, List.forall_mem_singleton,
      SeedModule.seedConstant, Statement.values, List.forall_mem_singleton,
      TypeScript.keepsKeys_listBlock, List.forall_mem_map, Table.resolved, List.forall_mem_map]
    intro row _
    have sub := seedKeys_sublist row (fun column => Name.camel column.name) [] table.columns
    rw [SeedModule.rowExpr, TypeScript.keepsKeys_object, List.map_filterMap]
    constructor
    · apply List.Sublist.nodup _ distinct
      simpa [Table.columnProperties, Function.comp_def, Column.resolve] using sub
    · intro field member
      obtain ⟨cell, _, made⟩ := List.mem_filterMap.mp member
      obtain ⟨column, _, rfl⟩ := Option.map_eq_some_iff.mp made
      exact keepsKeys_cell column.column.type cell.2

end Distinct

theorem keepsKeys_listDefaults :
    ∀ statement ∈ TypesModule.listDefaults (table.resolved others schema),
      ∀ value ∈ statement.values, value.KeepsKeys [] := by
  unfold TypesModule.listDefaults
  split
  · exact nofun
  · rw [List.forall_mem_singleton, Statement.values, List.forall_mem_singleton,
      TypeScript.keepsKeys_asConst, TypeScript.keepsKeys_objectBlock,
      TypesModule.listDefaultEntries]
    cases (table.resolved others schema).listView.defaultSort <;>
      cases (table.resolved others schema).listView.pageSize <;>
      simp [Entry.keys]

theorem keepsKeys_typesFile :
    (TypesModule.ofTable settings (table.resolved others schema)).KeepsKeys := by
  have envelopes : ∀ statement ∈ TypesModule.envelopes (table.resolved others schema).names,
      ∀ value ∈ statement.values, value.KeepsKeys [] := by
    simp [TypesModule.envelopes, TypesModule.plainInterface, Statement.values]
  have relations : ∀ statement ∈ TypesModule.relationTypes (table.resolved others schema),
      ∀ value ∈ statement.values, value.KeepsKeys [] := by
    rw [TypesModule.relationTypes, List.forall_mem_cons, List.forall_mem_map]
    constructor
    · unfold TypesModule.withRelations
      split <;> exact nofun
    · intro relation _
      exact nofun
  rw [Module.keepsKeys_iff, TypesModule.ofTable]
  simp only [List.forall_mem_map, List.forall_mem_singleton, List.cons_append,
    List.forall_mem_cons, List.forall_mem_append]
  exact ⟨nofun, ⟨envelopes, nofun, keepsKeys_listDefaults table others schema⟩, relations⟩

theorem keepsKeys_ofKind? (apart : table.KeysApart) {kind : ArtifactKind} {file : Module}
    (written : (TableModules.ofTable settings (table.resolved others schema)).ofKind? kind =
      some file) : file.KeepsKeys := by
  cases kind with
  | storage =>
      cases written
      exact (keepsKeys_storageFile_iff settings table others schema).mpr apart
  | validation =>
      cases written
      exact keepsKeys_validationFile settings table others schema apart.columns
  | types =>
      cases written
      exact keepsKeys_typesFile settings table others schema
  | seed => exact keepsKeys_seedFile settings table others schema apart.columns written

end Tables

section Enumerations

variable (settings : Settings) (enumerations : List Enumeration)

theorem keepsKeys_enumFile {imports : List TypeScript.Import} {paragraphs : List (List Statement)}
    (kept : ∀ paragraph ∈ paragraphs, ∀ statement ∈ paragraph, ∀ value ∈ statement.values,
      value.KeepsKeys []) : (EnumModule.file settings imports paragraphs).KeepsKeys := by
  rw [Module.keepsKeys_iff, EnumModule.file]
  split
  · simp [Statement.values]
  · exact kept

theorem keepsKeys_valueList {scope : List String} (enumeration : Enumeration) :
    (EnumModule.valueList enumeration).KeepsKeys scope := by
  simp [EnumModule.valueList]

theorem keepsKeys_option {scope : List String} (member : Member) :
    (EnumModule.optionExpr member).KeepsKeys scope := by
  rw [EnumModule.optionExpr]
  cases member.color <;> cases member.icon <;> simp

theorem keepsKeys_enumStorage : (EnumModule.storage settings enumerations).KeepsKeys := by
  apply keepsKeys_enumFile
  simp [EnumModule.storageConstant, Statement.values, keepsKeys_valueList]

theorem keepsKeys_enumValidation : (EnumModule.validation settings enumerations).KeepsKeys := by
  apply keepsKeys_enumFile
  simp [EnumModule.schemaStatements, Statement.values, keepsKeys_valueList]

theorem keepsKeys_enumTypes : (EnumModule.types settings enumerations).KeepsKeys := by
  apply keepsKeys_enumFile
  split
  · exact nofun
  · simp [EnumModule.optionInterface, EnumModule.optionsConstant, Statement.values,
      keepsKeys_option]

theorem keepsKeys_index (kind : ArtifactKind) (stems : List String) :
    (IndexModule.ofKind settings kind stems).module.KeepsKeys := by
  rw [Module.keepsKeys_iff, IndexModule.ofKind, List.forall_mem_singleton,
    IndexModule.statements]
  split <;> simp [Statement.values]

end Enumerations

namespace Schema

variable {schema : Schema} {settings : Settings}

theorem keepsKeys_of_origin (apart : ∀ table ∈ schema.tables, table.KeysApart)
    {artifact : Artifact} (origin : Origin schema settings artifact) :
    artifact.module.KeepsKeys := by
  cases origin with
  | storageEnums => exact keepsKeys_enumStorage settings schema.enumerations
  | validationEnums => exact keepsKeys_enumValidation settings schema.enumerations
  | typesEnums => exact keepsKeys_enumTypes settings schema.enumerations
  | @table table others kind file placed written =>
      exact keepsKeys_ofKind? settings table others schema
        (apart table (mem_tables_of_placed placed)) written
  | index kind stems => exact keepsKeys_index settings kind stems

theorem keepsKeys_filesOf_iff (clean : schema.collisions = []) {table : Table}
    (member : table ∈ schema.tables) :
    (∀ kind, ∀ artifact ∈ (Compilation.mk (schema.artifacts settings
        (schema.modules settings))).filesOf kind table, artifact.module.KeepsKeys) ↔
      table.KeysApart := by
  obtain ⟨others, placed⟩ := exists_placed_of_mem member
  constructor
  · intro kept
    have storage := kept .storage
    rw [filesOf_artifacts clean settings placed] at storage
    exact (keepsKeys_storageFile_iff settings table others schema).mp
      (storage _ (List.mem_singleton.mpr rfl))
  · intro apart kind artifact inFiles
    rw [filesOf_artifacts clean settings placed] at inFiles
    split at inFiles
    · cases inFiles
    · obtain ⟨file, written, rfl⟩ := Option.map_eq_some_iff.mp (Option.mem_toList.mp inFiles)
      exact keepsKeys_ofKind? settings table others schema apart written

/-- When the objects of a compilation keep all that is written in them. -/
structure KeysKept (schema : Schema) (compilation : Compilation) : Prop where
  kept_iff : (∀ artifact ∈ compilation.artifacts, artifact.module.KeepsKeys) ↔
    ∀ table ∈ schema.tables, table.KeysApart
  kept_in_files_iff : ∀ table ∈ schema.tables,
    (∀ kind, ∀ artifact ∈ compilation.filesOf kind table, artifact.module.KeepsKeys) ↔
      table.KeysApart
  apart_of_snake : ∀ table ∈ schema.tables, table.SnakeNames → table.KeysApart

theorem compile_keeps_keys {layout : DescriptorLayout} {enums tables : List Source}
    {schema : Schema} {settings : Settings} {compilation : Compilation}
    (loaded : load layout enums tables = .ok schema)
    (compiled : schema.compile settings = .ok compilation) : schema.KeysKept compilation := by
  obtain ⟨_, clean, _, rfl⟩ := compile_eq_ok_iff.mp compiled
  constructor
  · constructor
    · intro kept table member
      rw [← keepsKeys_filesOf_iff clean member]
      intro kind artifact inFiles
      exact kept artifact (List.mem_filter.mp (List.mem_filter.mp inFiles).1).1
    · intro apart artifact member
      exact keepsKeys_of_origin apart (origin_of_mem member)
  · intro table member
    exact keepsKeys_filesOf_iff clean member
  · intro table member snake
    exact Table.keysApart_of_snake (tables_admitted_of_load loaded table member) snake

theorem compile_keeps_keys_of_cats : ∃ compilation,
    load .usual [moods] [cats] = .ok catsAndMoods ∧
      catsAndMoods.compile .usual = .ok compilation ∧ catsAndMoods.KeysKept compilation :=
  ⟨_, load_cats, compile_cats .usual, compile_keeps_keys load_cats (compile_cats .usual)⟩

/-- A table that loses a column, its composite key and a relationship. -/
def lossy : Source :=
  ⟨"tags.json",
    "[\"tags\",null,null,null,"
      ++ "\x7b\"is_a\":\x7b\"type\":\"integer\",\"primaryKey\":true\x7d,"
      ++ "\"isA\":\x7b\"type\":\"integer\",\"primaryKey\":true\x7d\x7d,"
      ++ "\x7b\"pk\":[[\"is_a\"]]\x7d,\x7b\"is_a\":[\"oneToMany\",\"tags\",null],"
      ++ "\"isA\":[\"oneToMany\",\"tags\",null]\x7d]"⟩

def lossyTable : Table :=
  { Table.plain "tags" with
    columns := ["is_a", "isA"].map fun name =>
      { Column.plain name .integer with primaryKey := true }
    indexes := [⟨"pk", ["is_a"], false⟩]
    relationships := ["is_a", "isA"].map fun name => ⟨name, .oneToMany, "tags", none⟩ }

set_option maxRecDepth 2000 in
theorem keys_may_be_lost : ∃ schema compilation table,
    load .usual [] [lossy] = .ok schema ∧ schema.compile .usual = .ok compilation ∧
      table ∈ schema.tables ∧ ¬table.columnProperties.Nodup ∧ ¬table.extraKeys.Nodup ∧
        ¬table.relationKeys.Nodup := by
  have loaded : load .usual [] [lossy] = .ok ⟨[], [lossyTable]⟩ := by cbv
  have compiled : Schema.compile ⟨[], [lossyTable]⟩ .usual = .ok ⟨_⟩ :=
    compile_of_faultless .usual (by decide) (by decide)
  exact ⟨_, _, lossyTable, loaded, compiled, List.mem_singleton.mpr rfl, by decide, by decide,
    by decide⟩

end Schema

end SchemaCompiler
