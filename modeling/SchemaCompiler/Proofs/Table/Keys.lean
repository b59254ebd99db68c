import SchemaCompiler.Proofs.Column.Chains
import SchemaCompiler.Proofs.Schema.Loading
import SchemaCompiler.Proofs.Schema.Lookup

/-
Primary keys as the storage layer declares them.

A key of several declared columns is declared for the table, and then no column is
marked as a key by itself.  Otherwise the columns of the key are marked, each by
itself.  There is one of them when a column is declared as the key.  When none is,
every column that counts up belongs to the key, and two of them make two keys: that a
key has several columns is noticed only if they are declared.
-/

namespace SchemaCompiler
namespace Table

/-- The columns that the storage layer marks as primary keys, each by itself. -/
def markedColumns (table : Table) (enumerations : List Enumeration) : List Column :=
  table.columns.filter fun column =>
    (column.storage table enumerations).modifiers.contains .primaryKey

/-- The columns that count up. -/
def counters (table : Table) : List Column :=
  table.columns.filter fun column => column.type.isAutoIncrement

/-- One primary key is declared: that of one column, or that of several together. -/
inductive DeclaresOneKey (table : Table) (enumerations : List Enumeration) : Prop
  | single {column : Column} (apart : table.compositeKey? = none)
      (marked : table.markedColumns enumerations = [column])
  | composite {key : List Column} (together : table.compositeKey? = some key)
      (several : 2 ≤ key.length) (marked : table.markedColumns enumerations = [])

/-- How the primary key of a table is declared. -/
structure KeyDeclared (table : Table) (enumerations : List Enumeration) : Prop where
  composite (key : List Column) : table.compositeKey? = some key →
    key = table.declaredKey ∧ 2 ≤ key.length ∧ table.markedColumns enumerations = []
  single : table.compositeKey? = none →
    table.markedColumns enumerations = table.keyColumns ∧ table.keyColumns ≠ []
  /-- Columns that count up, none of them declared as the key, are all that stands
  against one key. -/
  one_key_iff : table.DeclaresOneKey enumerations ↔
    ¬(table.declaredKey = [] ∧ 2 ≤ table.counters.length)

section Keys

variable {table : Table} (enumerations : List Enumeration)

theorem compositeKey?_eq_some_iff {key : List Column} :
    table.compositeKey? = some key ↔ 2 ≤ table.declaredKey.length ∧ table.declaredKey = key := by
  rw [compositeKey?, Option.ite_none_right_eq_some, Option.some.injEq]
  rfl

theorem compositeKey?_eq_none_iff :
    table.compositeKey? = none ↔ table.declaredKey.length < 2 := by
  unfold compositeKey?
  split <;> simp <;> omega

theorem keyColumns_of_declared (declared : table.declaredKey ≠ []) :
    table.keyColumns = table.declaredKey := by
  rw [keyColumns, if_neg]
  rwa [List.isEmpty_iff]

theorem keyColumns_of_undeclared (undeclared : table.declaredKey = []) :
    table.keyColumns = table.counters := by
  rw [keyColumns, undeclared, List.isEmpty_nil, if_pos rfl]
  rfl

theorem keyColumns_eq_filter : ∃ holds, table.keyColumns = table.columns.filter holds := by
  by_cases declared : table.declaredKey = []
  · exact ⟨_, keyColumns_of_undeclared declared⟩
  · exact ⟨_, keyColumns_of_declared declared⟩

theorem keyColumns_ne_nil_of_valid (valid : table.issues = []) : table.keyColumns ≠ [] := by
  intro none
  have named := (List.append_eq_nil_iff.mp valid).2
  split at named
  · cases named
  · rw [if_pos (List.isEmpty_iff.mpr none)] at named
    cases named

/-- Where names are distinct, a column of the key is known by its name. -/
theorem isKey_iff_mem (distinct : (table.columns.map Column.name).Nodup) {column : Column}
    (member : column ∈ table.columns) :
    table.isKey column.name = true ↔ column ∈ table.keyColumns := by
  obtain ⟨holds, filtered⟩ := @keyColumns_eq_filter table
  have named : table.isKey column.name = true ↔ column.name ∈ table.keyColumns.map Column.name := by
    simp only [isKey, List.any_eq_true, beq_iff_eq, List.mem_map]
  rw [named, filtered, mem_map_filter_iff distinct member, List.mem_filter,
    and_iff_right member]

theorem markedColumns_of_composite {key : List Column}
    (together : table.compositeKey? = some key) : table.markedColumns enumerations = [] := by
  apply List.filter_eq_nil_iff.mpr
  intro column _ marked
  rw [List.contains_iff_mem, Column.primaryKey_mem_iff, together] at marked
  cases marked.1

theorem markedColumns_of_single (distinct : (table.columns.map Column.name).Nodup)
    (apart : table.compositeKey? = none) :
    table.markedColumns enumerations = table.keyColumns := by
  obtain ⟨holds, filtered⟩ := @keyColumns_eq_filter table
  rw [markedColumns, filtered]
  apply List.filter_congr
  intro column member
  rw [Bool.eq_iff_iff, List.contains_iff_mem, Column.primaryKey_mem_iff, and_iff_right apart,
    isKey_iff_mem distinct member, filtered, List.mem_filter, and_iff_right member]

theorem declaresOneKey_iff (distinct : (table.columns.map Column.name).Nodup)
    (valid : table.issues = []) : table.DeclaresOneKey enumerations ↔
      ¬(table.declaredKey = [] ∧ 2 ≤ table.counters.length) := by
  have filled := keyColumns_ne_nil_of_valid valid
  constructor
  · rintro oneKey ⟨undeclared, several⟩
    have apart : table.compositeKey? = none := by
      rw [compositeKey?_eq_none_iff, undeclared]
      exact Nat.zero_lt_two
    cases oneKey with
    | single _ marked =>
        rw [markedColumns_of_single enumerations distinct apart,
          keyColumns_of_undeclared undeclared] at marked
        rw [marked, List.length_singleton] at several
        omega
    | composite together _ _ =>
        rw [apart] at together
        cases together
  · intro noTwo
    by_cases several : 2 ≤ table.declaredKey.length
    · have together := compositeKey?_eq_some_iff.mpr ⟨several, rfl⟩
      exact .composite together several (markedColumns_of_composite enumerations together)
    · have apart := compositeKey?_eq_none_iff.mpr (Nat.lt_of_not_le several)
      have marked := markedColumns_of_single enumerations distinct apart
      have length : table.keyColumns.length = 1 := by
        have positive := List.length_pos_iff.mpr filled
        by_cases undeclared : table.declaredKey = []
        · have fewer : ¬2 ≤ table.counters.length := fun many => noTwo ⟨undeclared, many⟩
          rw [keyColumns_of_undeclared undeclared] at positive ⊢
          omega
        · rw [keyColumns_of_declared undeclared] at positive ⊢
          omega
      obtain ⟨column, single⟩ := List.length_eq_one_iff.mp length
      exact .single apart (marked.trans single)

/-- The key of a table that was loaded and is valid on its own. -/
theorem key_declared {layout : DescriptorLayout} {enums tables : List Source} {schema : Schema}
    (loaded : Schema.load layout enums tables = .ok schema) (member : table ∈ schema.tables)
    (valid : table.issues = []) : table.KeyDeclared enumerations := by
  have distinct := (Schema.tables_admitted_of_load loaded table member).nodup_columns
  constructor
  · intro _ together
    obtain ⟨several, rfl⟩ := compositeKey?_eq_some_iff.mp together
    exact ⟨rfl, several, markedColumns_of_composite enumerations together⟩
  · intro apart
    exact ⟨markedColumns_of_single enumerations distinct apart,
      keyColumns_ne_nil_of_valid valid⟩
  · exact declaresOneKey_iff enumerations distinct valid

end Keys

/-- A table whose key has two columns, beside a column that counts up. -/
def enrollments : Source :=
  ⟨"enrollments.json",
    "\x7b\"name\":\"enrollments\",\"columns\":\x7b\"seq\":\x7b\"type\":\"serial\"\x7d,"
      ++ "\"student\":\x7b\"type\":\"integer\",\"primaryKey\":true\x7d,"
      ++ "\"course\":\x7b\"type\":\"integer\",\"primaryKey\":true\x7d\x7d\x7d"⟩

def enrollmentsTable : Table :=
  { Table.plain "enrollments" with
    columns :=
      [.plain "seq" .autoIncrement,
        { Column.plain "student" .integer with primaryKey := true },
        { Column.plain "course" .integer with primaryKey := true }] }

theorem key_declared_of_enrollments :
    Schema.load .usual [] [enrollments] = .ok ⟨[], [enrollmentsTable]⟩ ∧
      enrollmentsTable.issues = [] ∧ enrollmentsTable.KeyDeclared [] := by
  have loaded : Schema.load .usual [] [enrollments] = .ok ⟨[], [enrollmentsTable]⟩ := by cbv
  have valid : enrollmentsTable.issues = [] := by decide
  exact ⟨loaded, valid, key_declared [] loaded List.mem_cons_self valid⟩

/-- Two columns that count up, and nothing said about a key. -/
def ticks : Source :=
  ⟨"ticks.json",
    "\x7b\"name\":\"ticks\",\"columns\":\x7b\"outer\":\x7b\"type\":\"serial\"\x7d,"
      ++ "\"inner\":\x7b\"type\":\"serial\"\x7d\x7d\x7d"⟩

def ticksTable : Table :=
  { Table.plain "ticks" with
    columns := [.plain "outer" .autoIncrement, .plain "inner" .autoIncrement] }

/-- Each of two columns that count up is declared as the primary key. -/
theorem two_keys_may_be_declared :
    ¬∀ (layout : DescriptorLayout) (enums tables : List Source) (schema : Schema)
        (table : Table) (enumerations : List Enumeration),
      Schema.load layout enums tables = .ok schema → table ∈ schema.tables →
        table.issues = [] → table.DeclaresOneKey enumerations := by
  intro oneKey
  have loaded : Schema.load .usual [] [ticks] = .ok ⟨[], [ticksTable]⟩ := by cbv
  have valid : ticksTable.issues = [] := by decide
  have distinct : (ticksTable.columns.map Column.name).Nodup := by decide
  have declared := oneKey _ _ _ _ _ [] loaded List.mem_cons_self valid
  exact (declaresOneKey_iff [] distinct valid).mp declared ⟨rfl, by decide⟩

end Table
end SchemaCompiler
