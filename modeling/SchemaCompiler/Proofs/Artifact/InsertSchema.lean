import SchemaCompiler.Proofs.Artifact.ValidationReads
import SchemaCompiler.Proofs.Column.Chains
import SchemaCompiler.Proofs.Name.Case
import SchemaCompiler.Proofs.TypeScript.ObjectSchema

/-
The schema of a new row.

Whether a new row names a column is settled in two places: the chain of the column may
end in optional, and what the chain leaves required may be let go when the schema of
the row is widened.  Storage settles by itself what becomes of a column that is not
given.  A column that a new row has to name is one that storage can fill in no way.
-/

namespace SchemaCompiler

open TypeScript (Expr HasShape Module Shape)

/-- What the insert schema says of a column, by the field it has for it, beside what
storage says. -/
structure ResolvedColumn.InsertAgrees (column : ResolvedColumn) (fields : FieldSets)
    (field : Option Expr) : Prop where
  absent : field = none ↔ column.column.isAutoGenerated = true
  optional (schema : Expr) : field = some schema →
    (schema.IsOptional ↔ column.validation.isOptional = true ∨ column.property ∈ fields.widened)
  once : ¬(column.validation.isOptional = true ∧ column.property ∈ fields.widened)
  lenient (schema : Expr) : field = some schema →
    (schema.IsOptional ↔ column.column.isNullable = true ∨ column.column.hasDefault = true ∨
      column.column.isRequired = false)
  required (schema : Expr) : field = some schema → ¬schema.IsOptional →
    .notNull ∈ column.storage.modifiers ∧
      (∀ literal, .fallback literal ∉ column.storage.modifiers) ∧
      .fallbackNow ∉ column.storage.modifiers ∧ column.storage.type ≠ .serial

/-- How the field sets and the insert schema of a table stand to its columns. -/
structure ResolvedTable.InsertAgrees (resolved : ResolvedTable) (table : Table) : Prop where
  columns : resolved.columns.map ResolvedColumn.column = table.columns
  properties : resolved.columns.map ResolvedColumn.property = table.columnProperties
  base : resolved.fields.base = table.columnProperties
  omitted : resolved.fields.omitted.Sublist resolved.fields.base
  widened : resolved.fields.widened.Sublist resolved.fields.base
  apart : resolved.fields.omitted.Disjoint resolved.fields.widened
  primaryKey : resolved.fields.primaryKey.Sublist resolved.fields.base
  /-- The insert schema has one shape, and no fields but those of the columns. -/
  insert (settings : Settings) : ∃ shape : Shape,
    (∀ other, HasShape (ValidationModule.ofTable settings resolved)
      (.name resolved.names.insertSchema) other ↔ other = shape) ∧
    (∀ field, field ∉ resolved.fields.base → shape field = none) ∧
    ∀ column ∈ resolved.columns, column.InsertAgrees resolved.fields (shape column.property)

/-! ### Optional links -/

theorem ValidationBase.not_isOptional_expr (base : ValidationBase) : ¬base.expr.IsOptional := by
  rintro ⟨owner, called⟩
  cases base <;> simp [expr, patternExpr, Expr.method, Expr.methodCall?] at called

theorem Refinement.isOptional_onto_iff {owner : Expr} {refinement : Refinement} :
    (refinement.onto owner).IsOptional ↔ refinement = .optional := by
  cases refinement <;> simp [onto, TypeScript.isOptional_method_iff]

/-- The expression of a chain ends in optional exactly when the chain does. -/
theorem ValidationChain.isOptional_expr_iff {chain : ValidationChain} :
    chain.expr.IsOptional ↔ chain.isOptional = true := by
  rw [isOptional, beq_iff_eq, expr]
  rcases List.eq_nil_or_concat chain.refinements with none | ⟨earlier, last, split⟩
  · rw [none, List.getLast?_nil, List.foldl_nil, iff_false_left chain.base.not_isOptional_expr]
    intro impossible
    cases impossible
  · rw [split, List.concat_eq_append, List.foldl_concat, List.getLast?_concat,
      Refinement.isOptional_onto_iff, Option.some.injEq]

/-! ### Columns and field sets -/

namespace Column

section Columns

variable {column : Column} {enumerations : List Enumeration}

theorem isWidened_iff : column.isWidened enumerations = true ↔
    column.isAutoGenerated = false ∧ (column.validation enumerations).isOptional = false ∧
      (column.isNullable = true ∨ column.hasDefault = true ∨ column.isRequired = false) := by
  rw [isWidened, Bool.and_eq_true, Bool.and_eq_true, Bool.not_eq_true', Bool.not_eq_true',
    Bool.or_eq_true, Bool.or_eq_true, Bool.not_eq_true', and_assoc, or_assoc]

/-- Chain and widening together let go what is nullable, has a default or is not
required. -/
theorem optional_or_widened_iff (given : column.isAutoGenerated = false) :
    (column.validation enumerations).isOptional = true ∨ column.isWidened enumerations = true ↔
      column.isNullable = true ∨ column.hasDefault = true ∨ column.isRequired = false := by
  rw [isWidened_iff, and_iff_right given]
  cases chained : (column.validation enumerations).isOptional with
  | true =>
      have absent := (column.isOptional_validation enumerations).mp chained
      simp [absent.2.1]
  | false => simp

theorem storageType_eq_serial_iff :
    column.storageType enumerations = .serial ↔ column.type = .autoIncrement := by
  unfold storageType
  cases column.type with
  | named tag =>
      dsimp only
      cases Enumeration.ofTag? tag enumerations with
      | none => simp
      | some enumeration => simp
  | _ => simp

/-- Storage cannot fill in a column that is not nullable, has no default and is not
filled by the database. -/
theorem storage_of_required {table : Table} (given : column.isAutoGenerated = false)
    (filled : column.isNullable = false) (bare : column.hasDefault = false) :
    .notNull ∈ (column.storage table enumerations).modifiers ∧
      (∀ literal, .fallback literal ∉ (column.storage table enumerations).modifiers) ∧
      .fallbackNow ∉ (column.storage table enumerations).modifiers ∧
      (column.storage table enumerations).type ≠ .serial := by
  have counts : column.type ≠ .autoIncrement := by
    intro counting
    rw [isAutoGenerated, ColumnType.isAutoIncrement_eq_true_iff.mpr counting] at given
    cases given
  have absent : column.fallback = none :=
    Option.isNone_iff_eq_none.mp (Option.isSome_eq_false_iff.mp bare)
  obtain ⟨noLiteral, noTime⟩ := @not_mem_of_no_default column table enumerations absent
  exact ⟨notNull_mem_iff.mpr ⟨counts, filled⟩, noLiteral, noTime,
    mt storageType_eq_serial_iff.mp counts⟩

end Columns

end Column

namespace Table

variable {table : Table} {enumerations : List Enumeration}

theorem mem_omitted_iff (distinct : table.columnProperties.Nodup) {column : Column}
    (member : column ∈ table.columns) :
    Name.camel column.name ∈ (table.fieldSets enumerations).omitted ↔
      column.isAutoGenerated = true :=
  mem_map_filter_iff distinct member

theorem mem_widened_iff (distinct : table.columnProperties.Nodup) {column : Column}
    (member : column ∈ table.columns) :
    Name.camel column.name ∈ (table.fieldSets enumerations).widened ↔
      column.isWidened enumerations = true :=
  mem_map_filter_iff distinct member

theorem omitted_disjoint_widened (distinct : table.columnProperties.Nodup) :
    (table.fieldSets enumerations).omitted.Disjoint (table.fieldSets enumerations).widened := by
  intro property isOmitted isWidened
  obtain ⟨column, selected, rfl⟩ := List.mem_map.mp isOmitted
  obtain ⟨member, generated⟩ := List.mem_filter.mp selected
  have given := (Column.isWidened_iff.mp ((mem_widened_iff distinct member).mp isWidened)).1
  rw [generated] at given
  cases given

end Table

/-! ### The insert schema -/

namespace ValidationModule

theorem baseSchema_ne_insertSchema (table : String) :
    (TableNames.ofTable table).baseSchema ≠ (TableNames.ofTable table).insertSchema := by
  intro same
  have lengths := congrArg String.length same
  simp only [TableNames.ofTable, String.length_append, Name.length_camel] at lengths
  have prefixed : "insert".length = 6 := rfl
  omega

/-- The shape of the schema of a row. -/
def rowShape (table : ResolvedTable) : Shape :=
  .ofEntries (table.columns.map fun column => .field column.property column.validation.expr)

/-- The fields of a new row that are set anew. -/
def widenedShape (table : ResolvedTable) : Shape :=
  .ofEntries (table.fields.widened.map fun field =>
    .field field ((fieldSchema table.names field).method "optional" []))

/-- The shape of the schema of a new row. -/
def insertShape (table : ResolvedTable) : Shape :=
  ((rowShape table).leaveOut table.fields.omitted).overlay (widenedShape table)

section Lookup

variable {table : ResolvedTable} {field : String}

theorem rowShape_of_column (distinct : (table.columns.map ResolvedColumn.property).Nodup)
    {column : ResolvedColumn} (member : column ∈ table.columns) :
    rowShape table column.property = some column.validation.expr :=
  Shape.ofEntries_of_mem ResolvedColumn.property (fun column => column.validation.expr)
    distinct member

theorem rowShape_of_not_column (other : field ∉ table.columns.map ResolvedColumn.property) :
    rowShape table field = none :=
  Shape.ofEntries_of_not_mem ResolvedColumn.property (fun column => column.validation.expr) other

theorem widenedShape_of_mem (distinct : table.fields.widened.Nodup)
    (member : field ∈ table.fields.widened) :
    widenedShape table field = some ((fieldSchema table.names field).method "optional" []) := by
  refine Shape.ofEntries_of_mem id
    (fun field => (fieldSchema table.names field).method "optional" []) ?_ member
  rwa [List.map_id]

theorem widenedShape_of_not_mem (absent : field ∉ table.fields.widened) :
    widenedShape table field = none := by
  refine Shape.ofEntries_of_not_mem id
    (fun field => (fieldSchema table.names field).method "optional" []) ?_
  rwa [List.map_id]

theorem insertShape_of_widened (distinct : table.fields.widened.Nodup)
    (member : field ∈ table.fields.widened) :
    insertShape table field = some ((fieldSchema table.names field).method "optional" []) := by
  rw [insertShape, Shape.overlay, widenedShape_of_mem distinct member, Option.some_or]

theorem insertShape_of_not_widened (absent : field ∉ table.fields.widened) :
    insertShape table field = (rowShape table).leaveOut table.fields.omitted field := by
  rw [insertShape, Shape.overlay, widenedShape_of_not_mem absent, Option.none_or]

end Lookup

section Shapes

variable {file : Module} {owner : Expr} {shape : Shape}

theorem hasShape_omitting (ofOwner : HasShape file owner shape) (fields : List String) :
    HasShape file (omitting owner fields) (shape.leaveOut fields) := by
  unfold omitting
  split
  case isTrue empty =>
    rw [List.isEmpty_iff.mp empty, Shape.leaveOut_nil]
    exact ofOwner
  case isFalse =>
    have names : (fields.map fun field => (field, Expr.verbatim "true")).map Prod.fst = fields := by
      rw [List.map_map]
      exact List.map_id fields
    exact (congrArg (fun left => HasShape file _ (shape.leaveOut left)) names).mp
      (.without rfl ofOwner)

theorem hasShape_widening (table : ResolvedTable) (ofOwner : HasShape file owner shape) :
    HasShape file (widening table.names owner table.fields.widened)
      (shape.overlay (widenedShape table)) := by
  unfold widening
  split
  case isTrue empty =>
    rw [widenedShape, List.isEmpty_iff.mp empty, List.map_nil, Shape.overlay_ofEntries_nil]
    exact ofOwner
  case isFalse => exact .changed rfl ofOwner

end Shapes

theorem hasShape_baseSchema (settings : Settings) (table : ResolvedTable) :
    HasShape (ofTable settings table) (.name table.names.baseSchema) (rowShape table) := by
  refine .named (if_pos rfl) (.object ?_)
  rfl

/-- The insert schema of a file has the shape of the schema of a new row. -/
theorem hasShape_insertSchema (settings : Settings) {table : ResolvedTable}
    (apart : table.names.baseSchema ≠ table.names.insertSchema) :
    HasShape (ofTable settings table) (.name table.names.insertSchema) (insertShape table) := by
  refine .named ((if_neg apart).trans (if_pos rfl)) ?_
  exact hasShape_widening table (hasShape_omitting (hasShape_baseSchema settings table) _)

section Columns

variable {table : Table} (others : List Table) (schema : Schema)

theorem map_property_resolved :
    (table.resolved others schema).columns.map ResolvedColumn.property =
      table.columnProperties := by
  change (table.columns.map _).map _ = _
  rw [List.map_map]
  rfl

theorem map_column_resolved :
    (table.resolved others schema).columns.map ResolvedColumn.column = table.columns := by
  change (table.columns.map _).map _ = _
  rw [List.map_map]
  exact List.map_id _

/-- What the schema of a new row has for a column. -/
theorem insertShape_column (distinct : table.columnProperties.Nodup) {column : Column}
    (member : column ∈ table.columns) :
    insertShape (table.resolved others schema) (Name.camel column.name) =
      if column.isAutoGenerated then none
      else if column.isWidened schema.enumerations then
        some ((fieldSchema (.ofTable table.name) (Name.camel column.name)).method "optional" [])
      else some (column.validation schema.enumerations).expr := by
  have omittedIff : Name.camel column.name ∈ (table.resolved others schema).fields.omitted ↔
      column.isAutoGenerated = true := Table.mem_omitted_iff distinct member
  have widenedIff : Name.camel column.name ∈ (table.resolved others schema).fields.widened ↔
      column.isWidened schema.enumerations = true := Table.mem_widened_iff distinct member
  by_cases isWidened : column.isWidened schema.enumerations = true
  · have given := (Column.isWidened_iff.mp isWidened).1
    have distinctWidened := (widened_sublist table schema).nodup distinct
    rw [insertShape_of_widened distinctWidened (widenedIff.mpr isWidened), given,
      if_neg Bool.false_ne_true, if_pos isWidened]
    rfl
  · rw [insertShape_of_not_widened (mt widenedIff.mp isWidened), if_neg isWidened,
      Shape.leaveOut]
    refine if_congr omittedIff rfl ?_
    have inResolved : column.resolve table schema.enumerations ∈
        (table.resolved others schema).columns := List.mem_map_of_mem member
    refine rowShape_of_column ?_ inResolved
    rw [map_property_resolved]
    exact distinct

theorem insertShape_of_not_column {field : String} (other : field ∉ table.columnProperties) :
    insertShape (table.resolved others schema) field = none := by
  have notWidened : field ∉ (table.resolved others schema).fields.widened :=
    fun inWidened => other ((widened_sublist table schema).subset inWidened)
  have notInRow : rowShape (table.resolved others schema) field = none := by
    apply rowShape_of_not_column
    rw [map_property_resolved]
    exact other
  rw [insertShape_of_not_widened notWidened, Shape.leaveOut, notInRow, ite_self]

/-- A field of a new row is optional by the chain of its column or by the widening. -/
theorem isOptional_insertShape_iff (distinct : table.columnProperties.Nodup) {column : Column}
    (member : column ∈ table.columns) {e : Expr}
    (same : insertShape (table.resolved others schema) (Name.camel column.name) = some e) :
    column.isAutoGenerated = false ∧
      (e.IsOptional ↔ (column.validation schema.enumerations).isOptional = true ∨
        column.isWidened schema.enumerations = true) := by
  rw [insertShape_column others schema distinct member] at same
  split at same
  case isTrue => cases same
  case isFalse given =>
    refine ⟨Bool.not_eq_true _ ▸ given, ?_⟩
    split at same
    case isTrue isWidened =>
      cases same
      exact iff_of_true ⟨_, rfl⟩ (.inr isWidened)
    case isFalse notWidened =>
      cases same
      rw [or_iff_left notWidened]
      exact ValidationChain.isOptional_expr_iff

theorem insertAgrees_column (distinct : table.columnProperties.Nodup) {column : Column}
    (member : column ∈ table.columns) :
    (column.resolve table schema.enumerations).InsertAgrees
      (table.fieldSets schema.enumerations)
      (insertShape (table.resolved others schema) (Name.camel column.name)) := by
  have widenedIff : Name.camel column.name ∈ (table.fieldSets schema.enumerations).widened ↔
      column.isWidened schema.enumerations = true := Table.mem_widened_iff distinct member
  have lenient (e : Expr)
      (same : insertShape (table.resolved others schema) (Name.camel column.name) = some e) :
      e.IsOptional ↔ column.isNullable = true ∨ column.hasDefault = true ∨
        column.isRequired = false := by
    obtain ⟨given, optional⟩ := isOptional_insertShape_iff others schema distinct member same
    exact optional.trans (Column.optional_or_widened_iff given)
  constructor
  · rw [insertShape_column others schema distinct member]
    split
    case isTrue generated => exact iff_of_true rfl generated
    case isFalse given =>
      refine iff_of_false ?_ given
      split <;> exact Option.some_ne_none _
  · intro e same
    have optional := (isOptional_insertShape_iff others schema distinct member same).2
    exact optional.trans (or_congr_right widenedIff.symm)
  · rintro ⟨chained, inWidened⟩
    have notChained := (Column.isWidened_iff.mp (widenedIff.mp inWidened)).2.1
    exact absurd (chained.symm.trans notChained) Bool.noConfusion
  · exact lenient
  · intro e same needed
    rw [lenient e same, not_or, not_or, Bool.not_eq_true, Bool.not_eq_true] at needed
    have given := (isOptional_insertShape_iff others schema distinct member same).1
    exact Column.storage_of_required given needed.1 needed.2.1

end Columns

end ValidationModule

namespace Table

variable {table : Table} {others : List Table} {schema : Schema} {resolved : ResolvedTable}

theorem eq_resolved_of_resolve (built : table.resolve others schema = .ok resolved) :
    resolved = table.resolved others schema := by
  unfold resolve at built
  split at built
  · exact (Except.ok.inj built).symm
  · cases built

theorem faults_eq_nil_of_resolve (built : table.resolve others schema = .ok resolved) :
    table.faults schema.tables = [] := by
  unfold resolve at built
  split at built
  · assumption
  · cases built

/-- The field sets and the insert schema of a table agree with storage. -/
theorem insert_agrees (built : table.resolve others schema = .ok resolved)
    (distinct : table.columnProperties.Nodup) : resolved.InsertAgrees table := by
  obtain rfl := eq_resolved_of_resolve built
  constructor
  · exact ValidationModule.map_column_resolved others schema
  · exact ValidationModule.map_property_resolved others schema
  · rfl
  · exact ValidationModule.omitted_sublist table schema
  · exact ValidationModule.widened_sublist table schema
  · exact omitted_disjoint_widened distinct
  · exact ValidationModule.primaryKey_sublist table schema
  · intro settings
    have hasShape : HasShape (ValidationModule.ofTable settings (table.resolved others schema))
        (.name (table.resolved others schema).names.insertSchema)
        (ValidationModule.insertShape (table.resolved others schema)) :=
      ValidationModule.hasShape_insertSchema settings
        (ValidationModule.baseSchema_ne_insertSchema table.name)
    refine ⟨ValidationModule.insertShape (table.resolved others schema), ?_, ?_, ?_⟩
    · intro other
      constructor
      · intro hasOther
        exact hasOther.unique hasShape
      · rintro rfl
        exact hasShape
    · intro field other
      exact ValidationModule.insertShape_of_not_column others schema other
    · intro column inResolved
      obtain ⟨declared, member, rfl⟩ := List.mem_map.mp inResolved
      exact ValidationModule.insertAgrees_column others schema distinct member

/-- A table with columns of every standing in a new row. -/
def members : Table :=
  { Table.plain "members" with
    columns :=
      [.plain "id" .autoIncrement,
        { Column.plain "email" .shortText with rules := { InputRules.none with email := true } },
        { Column.plain "status" .shortText with fallback := some (.text "new") },
        { Column.plain "bio" .longText with nullable := true },
        { Column.plain "nick_name" .shortText with
          rules := { InputRules.none with required := some false } },
        { Column.plain "joined_at" .dateTime with fallback := some .currentTimestamp }] }

theorem insert_agrees_of_members :
    members.resolve [] ⟨[], [members]⟩ = .ok (members.resolved [] ⟨[], [members]⟩) ∧
      members.columnProperties.Nodup ∧
      (members.resolved [] ⟨[], [members]⟩).InsertAgrees members := by
  have built : members.resolve [] ⟨[], [members]⟩ =
      .ok (members.resolved [] ⟨[], [members]⟩) := by
    have faultless : members.faults [members] = [] := by decide
    rw [resolve, faultless]
  have distinct : members.columnProperties.Nodup := by decide
  exact ⟨built, distinct, insert_agrees built distinct⟩

example : members.fieldSets [] =
    ⟨["id", "email", "status", "bio", "nickName", "joinedAt"], ["id", "joinedAt"],
      ["status", "bio"], ["id"]⟩ := by decide

end Table

end SchemaCompiler
