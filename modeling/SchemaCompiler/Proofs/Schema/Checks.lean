import SchemaCompiler.Proofs.Schema.Lookup
import SchemaCompiler.Schema.Fault

/-
Checks of a schema, one by one.

Each thing that generated code will rely on is listed as a check of its own, in
the order in which a reader of the descriptors meets it.  What makes a check fail
is said without any lookup, by what the tables declare.  The faults that the
compiler collects with its several scans are exactly those of the failed checks.
-/

namespace SchemaCompiler

/-- One thing that a table relies on. -/
inductive Check where
  /-- A column refers to a column of some table. -/
  | reference (column : String) (key : ForeignKey)
  /-- A relationship leads to or through a table. -/
  | relationship (name target : String)
  /-- An index or the list view names a column. -/
  | mention (column : String) (place : Mention)
  /-- A seed row, counted from one, sets a column. -/
  | cell (column : String) (row : Nat)

namespace Table

/-- Everything that a table relies on, in order. -/
def checks (table : Table) : List Check :=
  (table.columns.flatMap fun column =>
      column.reference.toList.map fun key => .reference column.name key)
    ++ (table.relationships.flatMap fun relationship =>
      .relationship relationship.name relationship.target
        :: relationship.through.toList.map fun between =>
          .relationship relationship.name between)
    ++ (table.indexes.flatMap fun index =>
      index.columns.map fun column => .mention column (.index index.name))
    ++ (table.listView.searchable.map fun column => .mention column .searchable)
    ++ (table.listView.sortable.map fun column => .mention column .sortable)
    ++ ((table.listView.filterable.getD []).map fun column => .mention column .filterable)
    ++ (table.listView.defaultSort.toList.map fun order => .mention order.field .defaultSort)
    ++ (table.seed.zipIdx 1).flatMap fun numbered =>
      numbered.1.map fun cell => .cell cell.1 numbered.2

/-- How a check of a table fails among the tables of a schema. -/
inductive Fails (tables : List Table) (table : Table) : Check → Fault → Prop
  | danglingTable {column : String} {key : ForeignKey}
      (unknown : ∀ other ∈ tables, other.name ≠ key.table) :
      Fails tables table (.reference column key)
        (.danglingTable table.name column key.table)
  | danglingColumn {column : String} {key : ForeignKey}
      {before : List Table} {target : Table} {after : List Table}
      (split : tables = before ++ target :: after)
      (first : ∀ other ∈ before, other.name ≠ key.table) (named : target.name = key.table)
      (undeclared : ∀ other ∈ target.columns, other.name ≠ key.column) :
      Fails tables table (.reference column key)
        (.danglingColumn table.name column key.table key.column)
  | unknownTarget {name target : String}
      (unknown : ∀ other ∈ tables, other.name ≠ target) :
      Fails tables table (.relationship name target) (.unknownTarget table.name name target)
  | unknownMention {column : String} {place : Mention}
      (undeclared : ∀ other ∈ table.columns, other.name ≠ column) :
      Fails tables table (.mention column place) (.unknownColumn table.name column place)
  | unknownCell {column : String} {row : Nat}
      (undeclared : ∀ other ∈ table.columns, other.name ≠ column) :
      Fails tables table (.cell column row)
        (.unknownColumn table.name column (.seedRow row))
  | generatedCell {column : String} {row : Nat}
      {before : List Column} {declared : Column} {after : List Column}
      (split : table.columns = before ++ declared :: after)
      (first : ∀ other ∈ before, other.name ≠ column) (named : declared.name = column)
      (generated : declared.isAutoGenerated = true) :
      Fails tables table (.cell column row)
        (.generatedColumn table.name column (.seedRow row))

/-- The fault of a check, by lookups. -/
def fault? (table : Table) (tables : List Table) : Check → Option Fault
  | .reference column key =>
      match Schema.tableIn? key.table tables with
      | none => some (.danglingTable table.name column key.table)
      | some target =>
          match target.column? key.column with
          | none => some (.danglingColumn table.name column key.table key.column)
          | some _ => none
  | .relationship name target =>
      match Schema.tableIn? target tables with
      | none => some (.unknownTarget table.name name target)
      | some _ => none
  | .mention column place =>
      match table.column? column with
      | none => some (.unknownColumn table.name column place)
      | some _ => none
  | .cell column row =>
      match table.column? column with
      | none => some (.unknownColumn table.name column (.seedRow row))
      | some declared =>
          if declared.isAutoGenerated then
            some (.generatedColumn table.name column (.seedRow row))
          else
            none

theorem fails_of_fault? {table : Table} {tables : List Table} {check : Check} {fault : Fault}
    (found : table.fault? tables check = some fault) : table.Fails tables check fault := by
  cases check with
  | reference column key =>
      simp only [fault?] at found
      cases looked : Schema.tableIn? key.table tables with
      | none =>
          rw [looked] at found
          cases found
          exact .danglingTable (Schema.tableIn?_eq_none_iff.mp looked)
      | some target =>
          rw [looked] at found
          cases declared : target.column? key.column with
          | none =>
              simp only [declared] at found
              cases found
              obtain ⟨before, after, split, first, named⟩ :=
                Schema.tableIn?_eq_some_iff.mp looked
              exact .danglingColumn split first named (column?_eq_none_iff.mp declared)
          | some _ =>
              simp only [declared] at found
              cases found
  | relationship name target =>
      simp only [fault?] at found
      cases looked : Schema.tableIn? target tables with
      | none =>
          rw [looked] at found
          cases found
          exact .unknownTarget (Schema.tableIn?_eq_none_iff.mp looked)
      | some _ =>
          rw [looked] at found
          cases found
  | mention column place =>
      simp only [fault?] at found
      cases looked : table.column? column with
      | none =>
          rw [looked] at found
          cases found
          exact .unknownMention (column?_eq_none_iff.mp looked)
      | some _ =>
          rw [looked] at found
          cases found
  | cell column row =>
      simp only [fault?] at found
      cases looked : table.column? column with
      | none =>
          rw [looked] at found
          cases found
          exact .unknownCell (column?_eq_none_iff.mp looked)
      | some declared =>
          rw [looked] at found
          simp only at found
          split at found
          case isTrue generated =>
            cases found
            obtain ⟨before, after, split, first, named⟩ := column?_eq_some_iff.mp looked
            exact .generatedCell split first named generated
          case isFalse => cases found

theorem fault?_of_fails {table : Table} {tables : List Table} {check : Check} {fault : Fault}
    (fails : table.Fails tables check fault) : table.fault? tables check = some fault := by
  cases fails with
  | danglingTable unknown => simp only [fault?, Schema.tableIn?_eq_none_iff.mpr unknown]
  | danglingColumn split first named undeclared =>
      have looked := Schema.tableIn?_eq_some_iff.mpr ⟨_, _, split, first, named⟩
      simp only [fault?, looked, column?_eq_none_iff.mpr undeclared]
  | unknownTarget unknown => simp only [fault?, Schema.tableIn?_eq_none_iff.mpr unknown]
  | unknownMention undeclared => simp only [fault?, column?_eq_none_iff.mpr undeclared]
  | unknownCell undeclared => simp only [fault?, column?_eq_none_iff.mpr undeclared]
  | generatedCell split first named generated =>
      have looked := column?_eq_some_iff.mpr ⟨_, _, split, first, named⟩
      simp only [fault?, looked, generated, if_true]

theorem foreignKey_faults_eq (table : Table) (tables : List Table) :
    (table.references.filterMap fun entry => table.referenceFault? tables entry.1 entry.2) =
      (table.columns.flatMap fun column => column.reference.toList.map fun key =>
        Check.reference column.name key).filterMap (table.fault? tables) := by
  rw [references, List.filterMap_filterMap, List.filterMap_eq_flatMap_toList,
    List.filterMap_flatMap]
  apply List.flatMap_congr
  intro column _
  cases column.reference with
  | none => rfl
  | some key =>
      simp only [Option.map_some, Option.bind_some, Option.toList_some, List.map_cons,
        List.map_nil, List.filterMap_eq_flatMap_toList, List.flatMap_singleton]
      rfl

theorem relationshipFaults_eq (table : Table) (tables : List Table)
    (relationship : Relationship) :
    table.relationshipFaults tables relationship =
      (relationship.tables.map fun name =>
        Check.relationship relationship.name name).filterMap (table.fault? tables) := by
  rw [relationshipFaults, List.filterMap_map, ← List.filterMap_eq_map, List.filterMap_filter]
  apply List.filterMap_congr
  intro name _
  simp only [Function.comp_apply, fault?]
  cases Schema.tableIn? name tables <;> rfl

theorem seedFaultsFrom_eq (table : Table) (tables : List Table) (number : Nat)
    (rows : List SeedRow) :
    table.seedFaultsFrom number rows =
      ((rows.zipIdx number).flatMap fun numbered =>
        numbered.1.map fun cell => Check.cell cell.1 numbered.2).filterMap
          (table.fault? tables) := by
  induction rows generalizing number with
  | nil => rfl
  | cons row rest ih =>
      rw [seedFaultsFrom, ih, List.zipIdx_cons, List.flatMap_cons, List.filterMap_append,
        List.filterMap_map]
      rfl

theorem columnFaults_eq (table : Table) (tables : List Table) :
    table.columnFaults =
      ((table.mentions.map fun entry => Check.mention entry.1 entry.2) ++
        (table.seed.zipIdx 1).flatMap fun numbered =>
          numbered.1.map fun cell => Check.cell cell.1 numbered.2).filterMap
            (table.fault? tables) := by
  rw [columnFaults, table.seedFaultsFrom_eq tables, List.filterMap_append, List.filterMap_map]
  rfl

/-- The faults of a table are those of its checks, in order. -/
theorem faults_eq (table : Table) (tables : List Table) :
    table.faults tables = table.checks.filterMap (table.fault? tables) := by
  have related : table.relationships.flatMap (table.relationshipFaults tables) =
      (table.relationships.flatMap fun relationship =>
        relationship.tables.map fun name =>
          Check.relationship relationship.name name).filterMap (table.fault? tables) := by
    rw [List.filterMap_flatMap]
    apply List.flatMap_congr
    intro relationship _
    exact table.relationshipFaults_eq tables relationship
  rw [faults, referenceFaults, foreignKey_faults_eq, related, table.columnFaults_eq tables]
  simp only [← List.filterMap_append]
  congr 1
  simp only [checks, mentions, Relationship.tables, List.map_append, List.map_flatMap,
    List.map_map, List.map_cons, Function.comp_def, List.append_assoc]

section Faultless

variable {table : Table} {tables : List Table} (faultless : table.faults tables = [])
include faultless

theorem holds_of_faultless {check : Check} (member : check ∈ table.checks) (fault : Fault) :
    ¬table.Fails tables check fault := by
  intro fails
  rw [faults_eq, List.filterMap_eq_nil_iff] at faultless
  have none := faultless check member
  rw [fault?_of_fails fails] at none
  cases none

/-- A faultless table refers to columns that are there. -/
theorem exists_column_of_reference {column : Column} {key : ForeignKey}
    (held : (column, key) ∈ table.references) :
    ∃ target ∈ tables, target.name = key.table ∧
      ∃ declared ∈ target.columns, declared.name = key.column := by
  obtain ⟨declares, given⟩ := mem_references.mp held
  have member : Check.reference column.name key ∈ table.checks := by
    have first : Check.reference column.name key ∈ table.columns.flatMap fun other =>
        other.reference.toList.map fun key => .reference other.name key := by
      refine List.mem_flatMap.mpr ⟨column, declares, ?_⟩
      rw [given]
      exact List.mem_singleton_self _
    simp only [checks, List.mem_append, first, true_or]
  have holds := holds_of_faultless faultless member
  cases looked : Schema.tableIn? key.table tables with
  | none =>
      have fails : table.Fails tables (.reference column.name key) _ :=
        .danglingTable (Schema.tableIn?_eq_none_iff.mp looked)
      exact absurd fails (holds _)
  | some target =>
      obtain ⟨targetMember, named⟩ := Schema.mem_of_tableIn?_eq_some looked
      cases found : target.column? key.column with
      | none =>
          obtain ⟨before, after, split, first, _⟩ := Schema.tableIn?_eq_some_iff.mp looked
          have fails : table.Fails tables (.reference column.name key) _ :=
            .danglingColumn split first named (column?_eq_none_iff.mp found)
          exact absurd fails (holds _)
      | some declared =>
          obtain ⟨declaredMember, sameName⟩ := mem_of_column?_eq_some found
          exact ⟨target, targetMember, named, declared, declaredMember, sameName⟩

/-- A faultless table has relationships with tables that are there. -/
theorem exists_target_of_relationship {relationship : Relationship}
    (declared : relationship ∈ table.relationships) :
    ∃ target ∈ tables, target.name = relationship.target := by
  have member : Check.relationship relationship.name relationship.target ∈ table.checks := by
    have first : Check.relationship relationship.name relationship.target ∈
        table.relationships.flatMap fun relationship =>
          .relationship relationship.name relationship.target
            :: relationship.through.toList.map fun between =>
              .relationship relationship.name between :=
      List.mem_flatMap.mpr ⟨relationship, declared, List.mem_cons_self⟩
    simp only [checks, List.mem_append, first, true_or, or_true]
  by_contra unknown
  have fails : table.Fails tables (.relationship relationship.name relationship.target) _ :=
    .unknownTarget fun other inTables named => unknown ⟨other, inTables, named⟩
  exact holds_of_faultless faultless member _ fails

/-- A faultless table has indexes over columns that it declares. -/
theorem exists_column_of_index {index : Index} (declared : index ∈ table.indexes)
    {name : String} (listed : name ∈ index.columns) :
    ∃ column ∈ table.columns, column.name = name := by
  have member : Check.mention name (.index index.name) ∈ table.checks := by
    have first : Check.mention name (.index index.name) ∈ table.indexes.flatMap fun index =>
        index.columns.map fun column => .mention column (.index index.name) :=
      List.mem_flatMap.mpr ⟨index, declared, List.mem_map_of_mem listed⟩
    simp only [checks, List.mem_append, first, true_or, or_true]
  by_contra undeclared
  have fails : table.Fails tables (.mention name (.index index.name)) _ :=
    .unknownMention fun other inColumns named => undeclared ⟨other, inColumns, named⟩
  exact holds_of_faultless faultless member _ fails

/-- A faultless table is filtered by columns that it declares. -/
theorem exists_column_of_filter {names : List String}
    (given : table.listView.filterable = some names) {name : String} (listed : name ∈ names) :
    ∃ column ∈ table.columns, column.name = name := by
  have member : Check.mention name .filterable ∈ table.checks := by
    have first : Check.mention name .filterable ∈
        (table.listView.filterable.getD []).map fun column => .mention column .filterable := by
      rw [given]
      exact List.mem_map_of_mem listed
    simp only [checks, List.mem_append, first, true_or, or_true]
  by_contra undeclared
  have fails : table.Fails tables (.mention name .filterable) _ :=
    .unknownMention fun other inColumns named => undeclared ⟨other, inColumns, named⟩
  exact holds_of_faultless faultless member _ fails

/-- A faultless table has seed rows for columns that it declares and fills itself. -/
theorem exists_column_of_cell {row : SeedRow} (listed : row ∈ table.seed)
    {cell : String × Json.Value} (inRow : cell ∈ row) :
    ∃ column, table.column? cell.1 = some column ∧ column.isAutoGenerated = false := by
  obtain ⟨index, below, here⟩ := List.getElem_of_mem listed
  have numbered : (row, index + 1) ∈ table.seed.zipIdx 1 :=
    List.mem_zipIdx_iff_le_and_getElem?_sub.mpr
      ⟨by omega, by simpa using List.getElem?_eq_some_iff.mpr ⟨below, here⟩⟩
  have member : Check.cell cell.1 (index + 1) ∈ table.checks := by
    have first : Check.cell cell.1 (index + 1) ∈ (table.seed.zipIdx 1).flatMap fun numbered =>
        numbered.1.map fun cell => .cell cell.1 numbered.2 :=
      List.mem_flatMap.mpr ⟨(row, index + 1), numbered, List.mem_map_of_mem inRow⟩
    simp only [checks, List.mem_append, first, or_true]
  have holds := holds_of_faultless faultless member
  cases looked : table.column? cell.1 with
  | none =>
      have fails : table.Fails tables (.cell cell.1 (index + 1)) _ :=
        .unknownCell (column?_eq_none_iff.mp looked)
      exact absurd fails (holds _)
  | some column =>
      refine ⟨column, rfl, ?_⟩
      by_contra generated
      obtain ⟨before, after, split, first, named⟩ := column?_eq_some_iff.mp looked
      have fails : table.Fails tables (.cell cell.1 (index + 1)) _ :=
        .generatedCell split first named (Bool.not_eq_false _ ▸ generated)
      exact holds _ fails

end Faultless

end Table

/-- The faults that come of checks: in order, one for each check that fails. -/
inductive Reported (tables : List Table) : List (Table × Check) → List Fault → Prop
  | nothing : Reported tables [] []
  | passed {table : Table} {check : Check} {rest : List (Table × Check)} {faults : List Fault}
      (holds : ∀ fault, ¬table.Fails tables check fault) (later : Reported tables rest faults) :
      Reported tables ((table, check) :: rest) faults
  | failed {table : Table} {check : Check} {fault : Fault} {rest : List (Table × Check)}
      {faults : List Fault}
      (fails : table.Fails tables check fault) (later : Reported tables rest faults) :
      Reported tables ((table, check) :: rest) (fault :: faults)

theorem reported_iff {tables : List Table} {checks : List (Table × Check)}
    {faults : List Fault} :
    Reported tables checks faults ↔
      faults = checks.filterMap fun entry => entry.1.fault? tables entry.2 := by
  constructor
  · intro reported
    induction reported with
    | nothing => rfl
    | @passed table check rest faults holds later ih =>
        have none : table.fault? tables check = none := by
          apply Option.eq_none_iff_forall_ne_some.mpr
          intro fault found
          exact holds fault (Table.fails_of_fault? found)
        rw [List.filterMap_cons, none]
        exact ih
    | failed fails later ih =>
        rw [List.filterMap_cons, Table.fault?_of_fails fails, ih]
  · rintro rfl
    induction checks with
    | nil => exact .nothing
    | cons entry rest ih =>
        obtain ⟨table, check⟩ := entry
        rw [List.filterMap_cons]
        cases found : table.fault? tables check with
        | none =>
            refine .passed ?_ ih
            intro fault fails
            rw [Table.fault?_of_fails fails] at found
            cases found
        | some fault => exact .failed (Table.fails_of_fault? found) ih

/-- Checks that come in two parts are reported in two parts. -/
theorem Reported.append_iff {tables : List Table} {before after : List (Table × Check)}
    {faults : List Fault} :
    Reported tables (before ++ after) faults ↔
      ∃ earlier later, faults = earlier ++ later ∧ Reported tables before earlier ∧
        Reported tables after later := by
  simp only [reported_iff, List.filterMap_append]
  constructor
  · rintro rfl
    exact ⟨_, _, rfl, rfl, rfl⟩
  · rintro ⟨_, _, rfl, rfl, rfl⟩
    rfl

namespace Schema

/-- The checks of every table, in order. -/
def checks (schema : Schema) : List (Table × Check) :=
  schema.tables.flatMap fun table => table.checks.map (table, ·)

theorem reported_checks_iff {schema : Schema} {faults : List Fault} :
    Reported schema.tables schema.checks faults ↔
      faults = schema.tables.flatMap fun table => table.faults schema.tables := by
  rw [reported_iff, checks, List.filterMap_flatMap]
  simp only [List.filterMap_map, Table.faults_eq, Function.comp_def]

end Schema
end SchemaCompiler
