import SchemaCompiler.Schema.Basic
import Mathlib.Data.List.Nodup

/-
Lookups by name.

A lookup returns the first entry of a name.  What it finds is in the list and has
the name; it finds nothing exactly when no entry has the name; and where names are
distinct it finds every entry by its own name.
-/

namespace SchemaCompiler

private theorem find?_key_eq_some_iff {α : Type} {key : α → String} {items : List α}
    {name : String} {item : α} :
    items.find? (fun other => key other == name) = some item ↔
      ∃ before after, items = before ++ item :: after ∧
        (∀ other ∈ before, key other ≠ name) ∧ key item = name := by
  rw [List.find?_eq_some_iff_append]
  constructor
  · rintro ⟨named, before, after, split, earlier⟩
    refine ⟨before, after, split, ?_, eq_of_beq named⟩
    intro other member same
    have different := earlier other member
    rw [same, beq_self_eq_true] at different
    cases different
  · rintro ⟨before, after, split, earlier, named⟩
    refine ⟨beq_iff_eq.mpr named, before, after, split, ?_⟩
    intro other member
    rw [beq_eq_false_iff_ne.mpr (earlier other member)]
    rfl

theorem find?_of_distinct {α : Type} {key : α → String} {items : List α}
    (distinct : (items.map key).Nodup) {item : α} (member : item ∈ items) :
    items.find? (fun other => key other == key item) = some item := by
  cases found : items.find? (fun other => key other == key item) with
  | none =>
      have missing := List.find?_eq_none.mp found item member
      exact absurd (beq_self_eq_true (key item)) missing
  | some other =>
      have sameKey : key other = key item := by simpa using List.find?_some found
      rw [List.inj_on_of_nodup_map distinct (List.mem_of_find?_eq_some found) member sameKey]

/-- Where names are distinct, which items are selected shows in their names. -/
theorem mem_map_filter_iff {α : Type} {key : α → String} {items : List α} {selects : α → Bool}
    (distinct : (items.map key).Nodup) {item : α} (member : item ∈ items) :
    key item ∈ (items.filter selects).map key ↔ selects item = true := by
  constructor
  · intro named
    obtain ⟨other, selected, sameKey⟩ := List.mem_map.mp named
    obtain ⟨inItems, holds⟩ := List.mem_filter.mp selected
    rwa [List.inj_on_of_nodup_map distinct member inItems sameKey.symm]
  · intro holds
    exact List.mem_map_of_mem (List.mem_filter.mpr ⟨member, holds⟩)

theorem filter_of_distinct {α : Type} {key : α → String} {items : List α}
    (distinct : (items.map key).Nodup) {item : α} (member : item ∈ items) :
    items.filter (fun other => key other == key item) = [item] := by
  induction items with
  | nil => cases member
  | cons first rest ih =>
      have parts := List.nodup_cons.mp distinct
      rcases List.mem_cons.mp member with rfl | later
      · have none : rest.filter (fun other => key other == key item) = [] := by
          apply List.filter_eq_nil_iff.mpr
          intro other inRest same
          exact parts.1 (List.mem_map.mpr ⟨other, inRest, eq_of_beq same⟩)
        simp only [List.filter_cons, beq_self_eq_true, if_true, none]
      · have different : ¬(key first == key item) = true := by
          intro same
          exact parts.1 (List.mem_map.mpr ⟨item, later, (eq_of_beq same).symm⟩)
        simp only [List.filter_cons, if_neg different]
        exact ih parts.2 later

theorem nodup_map_of_finer {α β γ : Type} {coarse : α → β} {fine : α → γ} {items : List α}
    (distinct : (items.map coarse).Nodup)
    (finer : ∀ left ∈ items, ∀ right ∈ items, fine left = fine right →
      coarse left = coarse right) : (items.map fine).Nodup := by
  apply List.Nodup.map_on _ (List.Nodup.of_map coarse distinct)
  intro left inLeft right inRight same
  exact List.inj_on_of_nodup_map distinct inLeft inRight (finer left inLeft right inRight same)

/-- Items differ when those of each group do. -/
theorem nodup_pairs_iff {α β γ : Type} [DecidableEq β] {group : α → β} {key : α → γ}
    {items : List α} :
    (items.map fun item => (group item, key item)).Nodup ↔
      ∀ shared, ((items.filter fun item => group item == shared).map key).Nodup := by
  simp only [List.Nodup, List.pairwise_map, List.pairwise_filter]
  constructor
  · intro distinct shared
    refine distinct.imp ?_
    intro left right different leftShared rightShared sameKey
    have sameGroup : group left = group right :=
      (eq_of_beq leftShared).trans (eq_of_beq rightShared).symm
    exact different (Prod.ext sameGroup sameKey)
  · intro each
    simp only [List.pairwise_iff_getElem] at each ⊢
    intro left right leftBelow rightBelow ordered same
    obtain ⟨sameGroup, sameKey⟩ := Prod.mk.inj same
    exact each _ left right leftBelow rightBelow ordered (beq_self_eq_true _)
      (beq_iff_eq.mpr sameGroup.symm) sameKey

namespace Table

theorem column?_eq_none_iff {table : Table} {name : String} :
    table.column? name = none ↔ ∀ column ∈ table.columns, column.name ≠ name := by
  simp only [column?, List.find?_eq_none, beq_iff_eq, ne_eq]

/-- What is found is the first column of the name. -/
theorem column?_eq_some_iff {table : Table} {name : String} {column : Column} :
    table.column? name = some column ↔
      ∃ before after, table.columns = before ++ column :: after ∧
        (∀ other ∈ before, other.name ≠ name) ∧ column.name = name :=
  find?_key_eq_some_iff

theorem mem_of_column?_eq_some {table : Table} {name : String} {column : Column}
    (found : table.column? name = some column) :
    column ∈ table.columns ∧ column.name = name :=
  ⟨List.mem_of_find?_eq_some found, by simpa using List.find?_some found⟩

theorem mem_references {table : Table} {column : Column} {reference : ForeignKey} :
    (column, reference) ∈ table.references ↔
      column ∈ table.columns ∧ column.reference = some reference := by
  simp only [references, List.mem_filterMap, Option.map_eq_some_iff, Prod.mk.injEq]
  constructor
  · rintro ⟨found, member, held, given, rfl, rfl⟩
    exact ⟨member, given⟩
  · rintro ⟨member, given⟩
    exact ⟨column, member, reference, given, rfl, rfl⟩

theorem mem_columns_of_compositeKey {table : Table} {key : List Column}
    (isKey : table.compositeKey? = some key) {column : Column} (member : column ∈ key) :
    column ∈ table.columns := by
  unfold compositeKey? at isKey
  split at isKey
  · obtain rfl := Option.some.inj isKey
    exact (List.mem_filter.mp member).1
  · cases isKey

end Table

namespace Schema

theorem tableIn?_eq_none_iff {name : String} {tables : List Table} :
    tableIn? name tables = none ↔ ∀ table ∈ tables, table.name ≠ name := by
  simp only [tableIn?, List.find?_eq_none, beq_iff_eq, ne_eq]

/-- What is found is the first table of the name. -/
theorem tableIn?_eq_some_iff {name : String} {tables : List Table} {table : Table} :
    tableIn? name tables = some table ↔
      ∃ before after, tables = before ++ table :: after ∧
        (∀ other ∈ before, other.name ≠ name) ∧ table.name = name :=
  find?_key_eq_some_iff

theorem mem_of_tableIn?_eq_some {name : String} {tables : List Table} {table : Table}
    (found : tableIn? name tables = some table) : table ∈ tables ∧ table.name = name :=
  ⟨List.mem_of_find?_eq_some found, by simpa using List.find?_some found⟩

/-- A table stands with the tables before and after it. -/
theorem mem_tablesWithOthers {schema : Schema} {table : Table} {others : List Table} :
    (table, others) ∈ schema.tablesWithOthers ↔
      ∃ before after, schema.tables = before ++ table :: after ∧ others = before ++ after := by
  simp only [tablesWithOthers, List.mem_mapIdx, Prod.mk.injEq]
  constructor
  · rintro ⟨number, below, rfl, rfl⟩
    refine ⟨schema.tables.take number, schema.tables.drop (number + 1), ?_, ?_⟩
    · rw [List.getElem_cons_drop, List.take_append_drop]
    · exact List.eraseIdx_eq_take_drop_succ _ _
  · rintro ⟨before, after, split, rfl⟩
    refine ⟨before.length, ?_, ?_, ?_⟩
    · rw [split, List.length_append, List.length_cons]
      omega
    · simp only [split, List.getElem_append_right (Nat.le_refl _), Nat.sub_self,
        List.getElem_cons_zero]
    · rw [split, List.eraseIdx_append_of_length_le (Nat.le_refl _), Nat.sub_self,
        List.eraseIdx_cons_zero]

theorem mem_tables_of_placed {schema : Schema} {table : Table} {others : List Table}
    (placed : (table, others) ∈ schema.tablesWithOthers) : table ∈ schema.tables := by
  obtain ⟨before, after, split, _⟩ := mem_tablesWithOthers.mp placed
  rw [split]
  exact List.mem_append_right before List.mem_cons_self

theorem others_subset_of_placed {schema : Schema} {table : Table} {others : List Table}
    (placed : (table, others) ∈ schema.tablesWithOthers) : others ⊆ schema.tables := by
  obtain ⟨before, after, split, rfl⟩ := mem_tablesWithOthers.mp placed
  intro other member
  rw [split]
  rcases List.mem_append.mp member with inBefore | inAfter
  · exact List.mem_append_left _ inBefore
  · exact List.mem_append_right before (List.mem_cons_of_mem table inAfter)

theorem exists_placed_of_mem {schema : Schema} {table : Table} (member : table ∈ schema.tables) :
    ∃ others, (table, others) ∈ schema.tablesWithOthers := by
  obtain ⟨before, after, split⟩ := List.append_of_mem member
  exact ⟨before ++ after, mem_tablesWithOthers.mpr ⟨before, after, split, rfl⟩⟩

theorem map_fst_tablesWithOthers (schema : Schema) :
    schema.tablesWithOthers.map Prod.fst = schema.tables := by
  apply List.ext_getElem
  · simp only [tablesWithOthers, List.length_map, List.length_mapIdx]
  · intro number _ _
    simp only [tablesWithOthers, List.getElem_map, List.getElem_mapIdx]

end Schema
end SchemaCompiler
