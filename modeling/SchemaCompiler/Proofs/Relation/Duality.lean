import SchemaCompiler.Proofs.Schema.Lookup
import SchemaCompiler.Table.Resolved

/-
Duality of relations.

Outgoing relations come from one scan of the columns of a table, incoming ones
from a scan of all other tables, and the property that an incoming relation
refers to from a lookup by names.  Where names are distinct the three agree: what
a table receives from another one is, in order, what that one sends to it.

Names of relations play no part here.  A relation is compared by the tables and
columns that it joins.
-/

namespace SchemaCompiler

/-- Table names differ, and so do the column names of each table. -/
structure Schema.DistinctNames (schema : Schema) : Prop where
  tables : (schema.tables.map Table.name).Nodup
  columns : ∀ table ∈ schema.tables, (table.columns.map Column.name).Nodup

private theorem filter_map_congr {α β γ δ : Type} {left : List α} {right : List β}
    {f : α → γ} {g : β → γ} (same : left.map f = right.map g) (keep : γ → Bool)
    (result : γ → δ) :
    (left.filter fun a => keep (f a)).map (fun a => result (f a)) =
      (right.filter fun b => keep (g b)).map (fun b => result (g b)) := by
  have filtered := congrArg (fun items => (items.filter keep).map result) same
  simpa only [List.filter_map, List.map_map, Function.comp_def] using filtered

private theorem flatMap_ite_singleton {α β : Type} (keep : α → Bool) (result : α → β)
    (items : List α) :
    (items.flatMap fun item => if keep item then [result item] else []) =
      (items.filter keep).map result := by
  induction items with
  | nil => rfl
  | cons item rest ih =>
      rw [List.flatMap_cons, ih, List.filter_cons]
      split <;> rfl

namespace Table

/-- Apart from names, outgoing relations are the references of the columns. -/
theorem outgoing_joins (table : Table) :
    (table.outgoing.map fun relation =>
        (relation.column, relation.targetTable, relation.targetColumn)) =
      table.references.map fun entry => (entry.1.name, entry.2.table, entry.2.column) := by
  have each (taken : List String) (entries : List (Column × ForeignKey)) :
      ((outgoingFrom taken entries).map fun relation =>
          (relation.column, relation.targetTable, relation.targetColumn)) =
        entries.map fun entry => (entry.1.name, entry.2.table, entry.2.column) := by
    induction entries generalizing taken with
    | nil => rfl
    | cons entry rest ih => exact congrArg (List.cons _) (ih _)
  exact each _ _

/-- Apart from names, incoming relations are the references of other tables. -/
theorem incoming_joins (table : Table) (others : List Table) :
    ((table.incoming others).map fun relation =>
        (relation.sourceTable, relation.sourceColumn)) =
      (referencesTo table.name others).map fun entry => (entry.1, entry.2.1.name) := by
  have each (taken : List String) (entries : List (String × Column × ForeignKey)) :
      ((incomingFrom taken entries).map fun relation =>
          (relation.sourceTable, relation.sourceColumn)) =
        entries.map fun entry => (entry.1, entry.2.1.name) := by
    induction entries generalizing taken with
    | nil => rfl
    | cons entry rest ih => exact congrArg (List.cons _) (ih _)
  exact each _ _

/-- The references that come from sources of one name. -/
theorem referencesTo_filter (target name : String) (sources : List Table) :
    (referencesTo target sources).filter (fun entry => entry.1 == name) =
      referencesTo target (sources.filter fun source => source.name == name) := by
  induction sources with
  | nil => rfl
  | cons source rest ih =>
      simp only [referencesTo, List.flatMap_cons, List.filter_append, List.filter_map,
        Function.comp_def] at ih ⊢
      by_cases same : source.name = name
      · simp only [same, beq_self_eq_true, List.filter_cons, if_true, List.flatMap_cons,
          List.filter_true, ih]
      · have different : (source.name == name) = false := beq_eq_false_iff_ne.mpr same
        simp only [different, List.filter_cons, Bool.false_eq_true, if_false,
          List.filter_false, List.map_nil, List.nil_append, ih]

/-- The column that an incoming relation comes from. -/
theorem exists_source_of_incoming {table : Table} {others : List Table}
    {relation : IncomingRelation} (member : relation ∈ table.incoming others) :
    ∃ source ∈ others, ∃ column reference, (column, reference) ∈ source.references ∧
      reference.table = table.name ∧ relation.sourceTable = source.name ∧
      relation.sourceColumn = column.name := by
  have joined : (relation.sourceTable, relation.sourceColumn) ∈
      (referencesTo table.name others).map fun entry => (entry.1, entry.2.1.name) := by
    rw [← incoming_joins]
    exact List.mem_map_of_mem member
  obtain ⟨entry, inReferences, same⟩ := List.mem_map.mp joined
  obtain ⟨source, inOthers, made⟩ := List.mem_flatMap.mp inReferences
  obtain ⟨held, kept, rfl⟩ := List.mem_map.mp made
  obtain ⟨inSource, towards⟩ := List.mem_filter.mp kept
  obtain ⟨sameTable, sameColumn⟩ := Prod.mk.inj same
  exact ⟨source, inOthers, held.1, held.2, inSource, eq_of_beq towards, sameTable.symm,
    sameColumn.symm⟩

/-- The outgoing relations to one table. -/
theorem outgoing_to {δ : Type} (source : Table) (target : String)
    (result : String × String × String → δ) :
    ((source.outgoing.filter fun relation => relation.targetTable == target).map fun relation =>
        result (relation.column, relation.targetTable, relation.targetColumn)) =
      (source.references.filter fun entry => entry.2.table == target).map fun entry =>
        result (entry.1.name, entry.2.table, entry.2.column) :=
  filter_map_congr source.outgoing_joins (fun joined => joined.2.1 == target) result

/-- Where column names differ, the references of a column are its own. -/
theorem references_of_column {table : Table} (distinct : (table.columns.map Column.name).Nodup)
    {column : Column} (member : column ∈ table.columns) :
    (table.references.filter fun entry => entry.1.name == column.name) =
      column.reference.toList.map (column, ·) := by
  have selected : (table.references.filter fun entry => entry.1.name == column.name) =
      (table.columns.filter fun other => other.name == column.name).filterMap fun other =>
        other.reference.map (other, ·) := by
    rw [references, List.filter_filterMap, List.filterMap_filter]
    apply List.filterMap_congr
    intro other _
    cases other.reference with
    | none => simp only [Option.map_none, Option.filter_none, ite_self]
    | some reference =>
        simp only [Option.map_some, Option.filter_some]
  rw [selected, filter_of_distinct distinct member]
  cases given : column.reference with
  | none => simp only [List.filterMap_cons, given, Option.map_none, List.filterMap_nil,
      Option.toList_none, List.map_nil]
  | some reference => simp only [List.filterMap_cons, given, Option.map_some,
      List.filterMap_nil, Option.toList_some, List.map_cons, List.map_nil]

end Table

namespace Schema

section Distinct

variable {schema : Schema} (distinct : schema.DistinctNames)
include distinct

theorem DistinctNames.eq_of_name_eq {left right : Table} (leftMember : left ∈ schema.tables)
    (rightMember : right ∈ schema.tables) (same : left.name = right.name) : left = right :=
  List.inj_on_of_nodup_map distinct.tables leftMember rightMember same

/-- Among the others of a table, each table but itself has its name alone. -/
theorem DistinctNames.filter_others {target source : Table} {others : List Table}
    (placed : (target, others) ∈ schema.tablesWithOthers) (member : source ∈ schema.tables) :
    (target = source → (others.filter fun other => other.name == source.name) = []) ∧
      (target ≠ source → (others.filter fun other => other.name == source.name) = [source]) := by
  obtain ⟨before, after, split, rfl⟩ := mem_tablesWithOthers.mp placed
  have all := filter_of_distinct distinct.tables member
  rw [split, List.filter_append, List.filter_cons] at all
  rw [List.filter_append]
  constructor
  · rintro rfl
    rw [if_pos (beq_self_eq_true _)] at all
    have lengths := congrArg List.length all
    simp only [List.length_append, List.length_cons, List.length_nil] at lengths
    apply List.length_eq_zero_iff.mp
    rw [List.length_append]
    omega
  · intro different
    have targetMember := mem_tables_of_placed placed
    have apart : ¬(target.name == source.name) = true := by
      intro same
      exact different (distinct.eq_of_name_eq targetMember member (eq_of_beq same))
    rw [if_neg apart] at all
    exact all

/-- What a table receives from another one. -/
theorem DistinctNames.incoming_from_other {δ : Type} {target source : Table}
    {others : List Table} (placed : (target, others) ∈ schema.tablesWithOthers)
    (member : source ∈ schema.tables) (different : target ≠ source)
    (result : String × String → δ) :
    (((target.incoming others).filter fun relation => relation.sourceTable == source.name).map
        fun relation => result (relation.sourceTable, relation.sourceColumn)) =
      (source.references.filter fun entry => entry.2.table == target.name).map fun entry =>
        result (source.name, entry.1.name) := by
  have all := filter_map_congr (target.incoming_joins others)
    (fun joined => joined.1 == source.name) result
  rw [all, Table.referencesTo_filter, (distinct.filter_others placed member).2 different]
  simp only [Table.referencesTo, List.flatMap_singleton, List.map_map, Function.comp_def]

theorem DistinctNames.incoming_from_itself {table : Table} {others : List Table}
    (placed : (table, others) ∈ schema.tablesWithOthers) (member : table ∈ schema.tables) :
    ((table.incoming others).filter fun relation => relation.sourceTable == table.name) = [] := by
  have all := filter_map_congr (table.incoming_joins others)
    (fun joined => joined.1 == table.name) id
  rw [Table.referencesTo_filter, (distinct.filter_others placed member).1 rfl] at all
  exact List.map_eq_nil_iff.mp all

/-- The lookup by names finds the reference of the very column. -/
theorem DistinctNames.lookup_reference {source : Table} (member : source ∈ schema.tables)
    {column : Column} (declared : column ∈ source.columns) :
    tableIn? source.name schema.tables = some source ∧
      source.column? column.name = some column :=
  ⟨find?_of_distinct distinct.tables member,
    find?_of_distinct (distinct.columns source member) declared⟩

end Distinct

/-- The tables that receive a relation from a column of a table. -/
def arrivals (schema : Schema) (source column : String) : List String :=
  schema.tablesWithOthers.flatMap fun entry =>
    ((entry.1.incoming entry.2).filter fun relation =>
      relation.sourceTable == source && relation.sourceColumn == column).map fun _ => entry.1.name

/-- The relations of a schema in the two directions are dual. -/
structure DualRelations (schema : Schema) : Prop where
  /-- What a table receives from another one is, in order, what that one sends. -/
  same_columns : ∀ source sourceOthers target targetOthers,
    (source, sourceOthers) ∈ schema.tablesWithOthers →
    (target, targetOthers) ∈ schema.tablesWithOthers → source ≠ target →
      (((target.incoming targetOthers).filter fun relation =>
          relation.sourceTable == source.name).map fun relation => relation.sourceColumn) =
        (source.outgoing.filter fun relation =>
          relation.targetTable == target.name).map fun relation => relation.column
  /-- The resolved relations join the same properties, too. -/
  same_properties : ∀ source sourceOthers target targetOthers,
    (source, sourceOthers) ∈ schema.tablesWithOthers →
    (target, targetOthers) ∈ schema.tablesWithOthers → source ≠ target →
      (((target.resolved targetOthers schema).incoming.filter fun relation =>
          relation.related.table == source.name).map fun relation =>
            (relation.foreignKey, relation.references)) =
        (((source.resolved sourceOthers schema).outgoing.filter fun relation =>
          relation.related.table == target.name).map fun relation =>
            (relation.foreignKey, relation.references))
  /-- A table receives nothing from itself. -/
  none_from_itself : ∀ table others, (table, others) ∈ schema.tablesWithOthers →
    ((table.incoming others).filter fun relation => relation.sourceTable == table.name) = []
  /-- A column gives one outgoing relation if it has a reference, and none if not. -/
  one_outgoing : ∀ table ∈ schema.tables, ∀ column ∈ table.columns,
    ((table.outgoing.filter fun relation => relation.column == column.name).map fun relation =>
        (relation.targetTable, relation.targetColumn)) =
      column.reference.toList.map fun reference => (reference.table, reference.column)
  /-- A reference to another table of the schema arrives there once and nowhere
  else, and any other reference arrives nowhere. -/
  one_incoming : ∀ table ∈ schema.tables, ∀ column ∈ table.columns, ∀ reference,
    column.reference = some reference →
      schema.arrivals table.name column.name =
        if reference.table ≠ table.name ∧ reference.table ∈ schema.tables.map Table.name then
          [reference.table]
        else []
  /-- The lookup of what an incoming relation refers to never comes back empty. -/
  lookup_finds : ∀ table others, (table, others) ∈ schema.tablesWithOthers →
    ∀ relation ∈ table.incoming others, ∃ source column reference,
      tableIn? relation.sourceTable schema.tables = some source ∧
        source.column? relation.sourceColumn = some column ∧
        column.reference = some reference ∧ reference.table = table.name ∧
        (Table.resolveIncoming schema.tables relation).references =
          Name.camel reference.column

section Distinct

variable {schema : Schema} (distinct : schema.DistinctNames)
include distinct

theorem DistinctNames.referencedProperty_eq {source : Table} (member : source ∈ schema.tables)
    {column : Column} {reference : ForeignKey} (held : (column, reference) ∈ source.references)
    (name : String) :
    Table.referencedProperty schema.tables ⟨name, source.name, column.name⟩ =
      Name.camel reference.column := by
  obtain ⟨declared, given⟩ := Table.mem_references.mp held
  obtain ⟨tableFound, columnFound⟩ := distinct.lookup_reference member declared
  simp only [Table.referencedProperty, tableFound, columnFound, Option.bind_some, given]

/-- What one table receives from a column with a reference. -/
theorem DistinctNames.received_from_column {target source : Table} {others : List Table}
    (placed : (target, others) ∈ schema.tablesWithOthers) (member : source ∈ schema.tables)
    {column : Column} (declared : column ∈ source.columns) {reference : ForeignKey}
    (given : column.reference = some reference) :
    (((target.incoming others).filter fun relation =>
        relation.sourceTable == source.name && relation.sourceColumn == column.name).map
          fun _ => target.name) =
      if target.name == reference.table && !(target.name == source.name) then [target.name]
      else [] := by
  have split : ((target.incoming others).filter fun relation =>
      relation.sourceTable == source.name && relation.sourceColumn == column.name) =
        ((target.incoming others).filter fun relation =>
          relation.sourceTable == source.name).filter fun relation =>
            relation.sourceColumn == column.name := by
    rw [List.filter_filter]
    exact List.filter_congr fun relation _ => Bool.and_comm _ _
  rw [split]
  by_cases same : target = source
  · subst same
    rw [distinct.incoming_from_itself placed member, beq_self_eq_true, Bool.not_true,
      Bool.and_false]
    rfl
  · have differentNames : (target.name == source.name) = false := by
      apply beq_eq_false_iff_ne.mpr
      intro equal
      exact same (distinct.eq_of_name_eq (mem_tables_of_placed placed) member equal)
    have joined := distinct.incoming_from_other placed member same id
    have ofColumn := filter_map_congr joined (fun pair => pair.2 == column.name)
      fun _ => target.name
    have own := Table.references_of_column (distinct.columns source member) declared
    rw [given] at own
    refine ofColumn.trans ?_
    simp only [id_eq]
    rw [List.filter_comm, own, differentNames, Bool.not_false, Bool.and_true]
    by_cases meant : reference.table = target.name
    · simp [meant]
    · have otherName : ¬target.name = reference.table := fun equal => meant equal.symm
      simp [meant, otherName]

theorem DistinctNames.arrivals_eq {table : Table} (member : table ∈ schema.tables)
    {column : Column} (declared : column ∈ table.columns) {reference : ForeignKey}
    (given : column.reference = some reference) :
    schema.arrivals table.name column.name =
      if reference.table ≠ table.name ∧ reference.table ∈ schema.tables.map Table.name then
        [reference.table]
      else [] := by
  let receives (target : Table) : Bool :=
    target.name == reference.table && !(target.name == table.name)
  have selected : schema.arrivals table.name column.name =
      (schema.tables.filter receives).map Table.name := by
    rw [← flatMap_ite_singleton, ← map_fst_tablesWithOthers, List.flatMap_map, arrivals]
    apply List.flatMap_congr
    intro entry placed
    exact distinct.received_from_column placed member declared given
  rw [selected]
  by_cases own : reference.table = table.name
  · have nowhere : schema.tables.filter receives = [] := by
      apply List.filter_eq_nil_iff.mpr
      intro target _
      simp only [receives, own, Bool.and_not_self, Bool.false_eq_true, not_false_eq_true]
    rw [nowhere, if_neg fun both => both.1 own]
    rfl
  · have receivesName : receives = fun target => target.name == reference.table := by
      funext target
      by_cases meant : target.name = reference.table
      · have foreign : (reference.table == table.name) = false := beq_eq_false_iff_ne.mpr own
        simp only [receives, meant, foreign, Bool.not_false, Bool.and_true]
      · have other : (target.name == reference.table) = false := beq_eq_false_iff_ne.mpr meant
        simp only [receives, other, Bool.false_and]
    rw [receivesName]
    by_cases loaded : reference.table ∈ schema.tables.map Table.name
    · obtain ⟨target, targetMember, sameName⟩ := List.mem_map.mp loaded
      rw [if_pos ⟨own, loaded⟩, ← sameName, filter_of_distinct distinct.tables targetMember]
      rfl
    · have nowhere : (schema.tables.filter fun target => target.name == reference.table) = [] := by
        apply List.filter_eq_nil_iff.mpr
        intro target targetMember same
        exact loaded (List.mem_map.mpr ⟨target, targetMember, eq_of_beq same⟩)
      rw [nowhere, if_neg fun both => loaded both.2]
      rfl

theorem DistinctNames.lookup_incoming {table : Table} {others : List Table}
    (placed : (table, others) ∈ schema.tablesWithOthers) {relation : IncomingRelation}
    (member : relation ∈ table.incoming others) : ∃ source column reference,
      tableIn? relation.sourceTable schema.tables = some source ∧
        source.column? relation.sourceColumn = some column ∧
        column.reference = some reference ∧ reference.table = table.name ∧
        (Table.resolveIncoming schema.tables relation).references =
          Name.camel reference.column := by
  obtain ⟨source, inOthers, column, reference, held, towards, sourceName, columnName⟩ :=
    Table.exists_source_of_incoming member
  have loaded := others_subset_of_placed placed inOthers
  obtain ⟨declared, given⟩ := Table.mem_references.mp held
  obtain ⟨tableFound, columnFound⟩ := distinct.lookup_reference loaded declared
  obtain ⟨name, sourceTable, sourceColumn⟩ := relation
  cases sourceName
  cases columnName
  exact ⟨source, column, reference, tableFound, columnFound, given, towards,
    distinct.referencedProperty_eq loaded held name⟩

theorem DistinctNames.same_columns {source target : Table} {targetOthers : List Table}
    (member : source ∈ schema.tables)
    (placed : (target, targetOthers) ∈ schema.tablesWithOthers) (different : source ≠ target) :
    (((target.incoming targetOthers).filter fun relation =>
        relation.sourceTable == source.name).map fun relation => relation.sourceColumn) =
      (source.outgoing.filter fun relation =>
        relation.targetTable == target.name).map fun relation => relation.column := by
  calc
    _ = (source.references.filter fun entry => entry.2.table == target.name).map
          fun entry => entry.1.name :=
      distinct.incoming_from_other placed member different.symm Prod.snd
    _ = _ := (source.outgoing_to target.name Prod.fst).symm

theorem DistinctNames.same_properties {source target : Table}
    {sourceOthers targetOthers : List Table} (member : source ∈ schema.tables)
    (placed : (target, targetOthers) ∈ schema.tablesWithOthers) (different : source ≠ target) :
    (((target.resolved targetOthers schema).incoming.filter fun relation =>
        relation.related.table == source.name).map fun relation =>
          (relation.foreignKey, relation.references)) =
      (((source.resolved sourceOthers schema).outgoing.filter fun relation =>
        relation.related.table == target.name).map fun relation =>
          (relation.foreignKey, relation.references)) := by
  simp only [Table.resolved, List.filter_map, List.map_map, Function.comp_def]
  let looked (joined : String × String) : String × String :=
    (Name.camel joined.2, Table.referencedProperty schema.tables ⟨"", joined.1, joined.2⟩)
  calc
    _ = (source.references.filter fun entry => entry.2.table == target.name).map
          fun entry => looked (source.name, entry.1.name) :=
      distinct.incoming_from_other placed member different.symm looked
    _ = (source.references.filter fun entry => entry.2.table == target.name).map
          fun entry => (Name.camel entry.1.name, Name.camel entry.2.column) := by
      apply List.map_congr_left
      intro entry kept
      have held := (List.mem_filter.mp kept).1
      simp only [looked, distinct.referencedProperty_eq member held]
    _ = _ := (source.outgoing_to target.name fun joined =>
      (Name.camel joined.1, Name.camel joined.2.2)).symm

end Distinct

theorem relations_dual (schema : Schema) (distinct : schema.DistinctNames) :
    schema.DualRelations where
  same_columns source sourceOthers target targetOthers sourcePlaced targetPlaced different :=
    distinct.same_columns (mem_tables_of_placed sourcePlaced) targetPlaced different
  same_properties source sourceOthers target targetOthers sourcePlaced targetPlaced different :=
    distinct.same_properties (mem_tables_of_placed sourcePlaced) targetPlaced different
  none_from_itself table others placed :=
    distinct.incoming_from_itself placed (mem_tables_of_placed placed)
  one_outgoing table member column declared := by
    have joined := filter_map_congr table.outgoing_joins
      (fun joined => joined.1 == column.name) Prod.snd
    refine joined.trans ?_
    rw [Table.references_of_column (distinct.columns table member) declared]
    simp only [List.map_map, Function.comp_def]
  one_incoming table member column declared reference given :=
    distinct.arrivals_eq member declared given
  lookup_finds table others placed relation member := distinct.lookup_incoming placed member

/-- Guests, and messages with two references to guests and one to a message. -/
def messaging : Schema where
  enumerations := []
  tables :=
    [{ Table.plain "guests" with columns := [Column.plain "id" .autoIncrement] },
      { Table.plain "messages" with
        columns :=
          [Column.plain "id" .autoIncrement,
            { Column.plain "sender_id" .integer with
              reference := some ⟨"guests", "id", .cascade⟩ },
            { Column.plain "recipient_id" .integer with
              reference := some ⟨"guests", "id", .cascade⟩ },
            { Column.plain "reply_to_id" .integer with
              reference := some ⟨"messages", "id", .setNull⟩ }] }]

theorem relations_dual_of_messaging : messaging.DistinctNames ∧ messaging.DualRelations := by
  have distinct : messaging.DistinctNames := by
    constructor
    · decide
    · decide
  exact ⟨distinct, relations_dual messaging distinct⟩

end Schema
end SchemaCompiler
