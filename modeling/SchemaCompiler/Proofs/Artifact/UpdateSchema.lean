import SchemaCompiler.Proofs.Artifact.InsertSchema
import SchemaCompiler.Proofs.Table.Keys

/-
The schema of a changed row.

A changed row may leave out everything but the key, so the schema of a new row is let
go as a whole and the fields of the key are set anew, as the schema of a row has them.
That they are demanded is thus left to the chains of the columns of the key.  No such
column accepts null, but one that is declared as not required, and takes no value by
itself, may be left out of a row, and then it may be left out of a change too.
-/

namespace SchemaCompiler

open TypeScript (Expr HasEasedShape HasShape Shape)

/-- The chains of the columns of the key accept neither null nor nothing. -/
def Table.DemandsKey (table : Table) (enumerations : List Enumeration) : Prop :=
  ∀ column ∈ table.keyColumns,
    .optional ∉ (column.validation enumerations).refinements ∧
      .nullable ∉ (column.validation enumerations).refinements

/-- How the schema of a changed row takes up the key of a table. -/
structure ResolvedTable.ReassertsKey (resolved : ResolvedTable) (table : Table)
    (enumerations : List Enumeration) : Prop where
  key : resolved.fields.primaryKey = table.keyColumns.map fun column => Name.camel column.name
  key_ne_nil : resolved.fields.primaryKey ≠ []
  /-- The update schema has one shape: the key from the schema of a row, all else optional. -/
  update (settings : Settings) : ∃ shape : Shape,
    (∀ other, HasEasedShape (ValidationModule.ofTable settings resolved)
      (.name resolved.names.updateSchema) other ↔ other = shape) ∧
    (∀ field ∈ resolved.fields.primaryKey,
      shape field = some (ValidationModule.fieldSchema resolved.names field)) ∧
    ∀ field, field ∉ resolved.fields.primaryKey →
      ∀ schema, shape field = some schema → schema.IsOptional
  /-- What the schema of a row has under a property is the chain of its column. -/
  row (settings : Settings) : table.columnProperties.Nodup → ∃ shape : Shape,
    (∀ other, HasShape (ValidationModule.ofTable settings resolved)
      (.name resolved.names.baseSchema) other ↔ other = shape) ∧
    ∀ column ∈ table.keyColumns,
      shape (Name.camel column.name) = some (column.validation enumerations).expr ∧
        ((column.validation enumerations).expr.IsOptional ↔
          .optional ∈ (column.validation enumerations).refinements)
  never_null : ∀ column ∈ table.keyColumns,
    .nullable ∉ (column.validation enumerations).refinements
  optional_iff : ∀ column ∈ table.keyColumns,
    (.optional ∈ (column.validation enumerations).refinements ↔
      column.rules.required = some false ∧ column.fallback = none)
  demanded_iff : table.DemandsKey enumerations ↔
    ∀ column ∈ table.keyColumns, column.rules.required = some false → column.fallback ≠ none

/-! ### Columns of the key -/

namespace Column

variable {column : Column} {enumerations : List Enumeration}

theorem optional_mem_iff :
    .optional ∈ (column.validation enumerations).refinements ↔
      (column.validation enumerations).isOptional = true :=
  (column.isOptional_iff_mem enumerations).symm

theorem isRequired_eq_false_iff (filled : column.isNullable = false) :
    column.isRequired = false ↔ column.rules.required = some false := by
  rw [isRequired, filled]
  cases column.rules.required with
  | none => simp
  | some required => simp

theorem optional_mem_iff_of_filled (filled : column.isNullable = false) :
    .optional ∈ (column.validation enumerations).refinements ↔
      column.rules.required = some false ∧ column.fallback = none := by
  rw [optional_mem_iff, column.isOptional_validation enumerations, and_iff_right filled,
    isRequired_eq_false_iff filled, hasDefault, Option.isSome_eq_false_iff,
    Option.isNone_iff_eq_none]

end Column

namespace Table

section Keys

variable {table : Table} {column : Column}

theorem mem_columns_of_key (isKey : column ∈ table.keyColumns) : column ∈ table.columns := by
  obtain ⟨holds, filtered⟩ := @keyColumns_eq_filter table
  rw [filtered] at isKey
  exact List.mem_of_mem_filter isKey

theorem declared_or_counts_of_key (isKey : column ∈ table.keyColumns) :
    column.primaryKey = true ∨ column.type.isAutoIncrement = true := by
  by_cases declared : table.declaredKey = []
  · rw [keyColumns_of_undeclared declared] at isKey
    exact .inr (List.mem_filter.mp isKey).2
  · rw [keyColumns_of_declared declared] at isKey
    exact .inl (List.mem_filter.mp isKey).2

/-- No column of the key of an admitted table accepts null. -/
theorem isNullable_of_key (admitted : table.Admitted) (isKey : column ∈ table.keyColumns) :
    column.isNullable = false := by
  have columnAdmitted := admitted.columns column (mem_columns_of_key isKey)
  rw [← columnAdmitted.nullable_eq]
  exact columnAdmitted.never_null (declared_or_counts_of_key isKey)

theorem demandsKey_iff (admitted : table.Admitted) (enumerations : List Enumeration) :
    table.DemandsKey enumerations ↔
      ∀ column ∈ table.keyColumns,
        column.rules.required = some false → column.fallback ≠ none := by
  refine forall₂_congr fun column isKey => ?_
  have filled := isNullable_of_key admitted isKey
  have notNull : .nullable ∉ (column.validation enumerations).refinements := by
    rw [Column.nullable_mem_iff, filled]
    exact Bool.false_ne_true
  rw [and_iff_left notNull, Column.optional_mem_iff_of_filled filled, not_and]

end Keys

end Table

/-! ### The update schema -/

namespace ValidationModule

theorem baseSchema_ne_updateSchema (table : String) :
    (TableNames.ofTable table).baseSchema ≠ (TableNames.ofTable table).updateSchema := by
  intro same
  have lengths := congrArg String.length same
  simp only [TableNames.ofTable, String.length_append, Name.length_camel] at lengths
  have prefixed : "update".length = 6 := rfl
  omega

theorem insertSchema_ne_updateSchema (table : String) :
    (TableNames.ofTable table).insertSchema ≠ (TableNames.ofTable table).updateSchema := by
  intro same
  have heads := congrArg (fun name => name.toList.head?) same
  simp [TableNames.ofTable] at heads

/-- The fields of a changed row that are set anew. -/
def keyShape (table : ResolvedTable) : Shape :=
  .ofEntries (table.fields.primaryKey.map fun key => .field key (fieldSchema table.names key))

/-- The shape of the schema of a changed row. -/
def updateShape (table : ResolvedTable) : Shape :=
  (insertShape table).eased.overlay (keyShape table)

section Lookup

variable {table : ResolvedTable} {field : String}

theorem updateShape_of_key (isKey : field ∈ table.fields.primaryKey) :
    updateShape table field = some (fieldSchema table.names field) := by
  rw [updateShape, Shape.overlay, keyShape,
    Shape.ofEntries_fields (fieldSchema table.names), if_pos isKey, Option.some_or]

theorem isOptional_updateShape (other : field ∉ table.fields.primaryKey) {schema : Expr}
    (found : updateShape table field = some schema) : schema.IsOptional := by
  rw [updateShape, Shape.overlay, keyShape,
    Shape.ofEntries_fields (fieldSchema table.names), if_neg other, Option.none_or,
    Shape.eased, Option.map_eq_some_iff] at found
  obtain ⟨owner, _, rfl⟩ := found
  exact ⟨owner, rfl⟩

end Lookup

/-- The update schema of a file with a key has the shape of the schema of a changed row. -/
theorem hasEasedShape_updateSchema (settings : Settings) (table : ResolvedTable)
    (base : table.names.baseSchema ≠ table.names.insertSchema)
    (fromBase : table.names.baseSchema ≠ table.names.updateSchema)
    (fromInsert : table.names.insertSchema ≠ table.names.updateSchema)
    (keyed : table.fields.primaryKey ≠ []) :
    HasEasedShape (ofTable settings table) (.name table.names.updateSchema)
      (updateShape table) := by
  refine .named ((if_neg fromBase).trans ((if_neg fromInsert).trans (if_pos rfl))) ?_
  rw [if_neg (mt List.isEmpty_iff.mp keyed)]
  exact .changed rfl (.eased rfl (hasShape_insertSchema settings base))

end ValidationModule

namespace Table

open ValidationModule

variable {table : Table}

theorem rowShape_of_key (distinct : table.columnProperties.Nodup) {column : Column}
    (isKey : column ∈ table.keyColumns) (others : List Table) (schema : Schema) :
    rowShape (table.resolved others schema) (Name.camel column.name) =
      some (column.validation schema.enumerations).expr := by
  have inResolved : column.resolve table schema.enumerations ∈
      (table.resolved others schema).columns := List.mem_map_of_mem (mem_columns_of_key isKey)
  refine rowShape_of_column ?_ inResolved
  rw [map_property_resolved]
  exact distinct

/-- The key of a table that was loaded and is valid on its own, in the schema of a changed
row. -/
theorem key_reasserted {layout : DescriptorLayout} {enums tables : List Source}
    {schema : Schema} (loaded : Schema.load layout enums tables = .ok schema)
    (member : table ∈ schema.tables) (valid : table.issues = []) (others : List Table)
    (context : Schema) :
    (table.resolved others context).ReassertsKey table context.enumerations := by
  have admitted := Schema.tables_admitted_of_load loaded table member
  have keyed : (table.resolved others context).fields.primaryKey ≠ [] := by
    intro none
    exact keyColumns_ne_nil_of_valid valid (List.map_eq_nil_iff.mp none)
  constructor
  · rfl
  · exact keyed
  · intro settings
    have hasShape := hasEasedShape_updateSchema settings (table.resolved others context)
      (baseSchema_ne_insertSchema table.name) (baseSchema_ne_updateSchema table.name)
      (insertSchema_ne_updateSchema table.name) keyed
    refine ⟨updateShape (table.resolved others context), fun _ => hasShape.eq_iff, ?_, ?_⟩
    · intro field isKey
      exact updateShape_of_key isKey
    · intro field other e found
      exact isOptional_updateShape other found
  · intro settings distinct
    have hasShape := hasShape_baseSchema settings (table.resolved others context)
    refine ⟨rowShape (table.resolved others context), fun _ => hasShape.eq_iff, ?_⟩
    intro column isKey
    refine ⟨rowShape_of_key distinct isKey others context, ?_⟩
    rw [ValidationChain.isOptional_expr_iff, Column.optional_mem_iff]
  · intro column isKey
    rw [Column.nullable_mem_iff, isNullable_of_key admitted isKey]
    exact Bool.false_ne_true
  · intro column isKey
    exact Column.optional_mem_iff_of_filled (isNullable_of_key admitted isKey)
  · exact demandsKey_iff admitted context.enumerations

/-- A table with a column that counts up and is declared as not required. -/
def tags : Source :=
  ⟨"tags.json",
    "\x7b\"name\":\"tags\",\"columns\":\x7b\"id\":\x7b\"type\":\"serial\","
      ++ "\"validation\":\x7b\"required\":false\x7d\x7d\x7d\x7d"⟩

def tagsTable : Table :=
  { Table.plain "tags" with
    columns :=
      [{ Column.plain "id" .autoIncrement with
        rules := { InputRules.none with required := some false } }] }

theorem key_reasserted_of_tags :
    Schema.load .usual [] [tags] = .ok ⟨[], [tagsTable]⟩ ∧ tagsTable.issues = [] ∧
      (tagsTable.resolved [] ⟨[], [tagsTable]⟩).ReassertsKey tagsTable [] := by
  have loaded : Schema.load .usual [] [tags] = .ok ⟨[], [tagsTable]⟩ := by cbv
  have valid : tagsTable.issues = [] := by decide
  exact ⟨loaded, valid, key_reasserted loaded List.mem_cons_self valid [] ⟨[], [tagsTable]⟩⟩

/-- A change may leave out the key. -/
theorem key_may_be_left_out :
    ¬∀ (layout : DescriptorLayout) (enums tables : List Source) (schema : Schema)
        (table : Table) (enumerations : List Enumeration),
      Schema.load layout enums tables = .ok schema → table ∈ schema.tables →
        table.issues = [] → table.DemandsKey enumerations := by
  intro demands
  have loaded : Schema.load .usual [] [tags] = .ok ⟨[], [tagsTable]⟩ := by cbv
  have valid : tagsTable.issues = [] := by decide
  have demanded := demands _ _ _ _ _ [] loaded List.mem_cons_self valid
  have admitted := Schema.tables_admitted_of_load loaded tagsTable List.mem_cons_self
  exact (demandsKey_iff admitted []).mp demanded _ List.mem_cons_self rfl rfl

end Table
end SchemaCompiler
