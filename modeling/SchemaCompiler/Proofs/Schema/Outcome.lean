import SchemaCompiler.Proofs.Schema.Checks
import SchemaCompiler.Proofs.WorkPool.Schedules
import SchemaCompiler.Schema.Compile

/-
The outcome of a compilation.

A compilation ends in one of three ways: with the first table that is invalid on
its own, with all faults of all tables, or with artifacts.  Which of them it is,
and what is reported, depends on the checks alone and neither on the number of
workers nor on the order in which they finish.
-/

namespace SchemaCompiler
namespace Schema

/-- The files of all tables, whatever may be at fault with them. -/
def modules (schema : Schema) (settings : Settings) : List TableModules :=
  schema.tablesWithOthers.map fun entry =>
    .ofTable settings (entry.1.resolved entry.2 schema)

theorem firstIssues?_eq_none_iff {schema : Schema} :
    schema.firstIssues? = none ↔ ∀ table ∈ schema.tables, table.issues = [] := by
  simp only [firstIssues?, Option.map_eq_none_iff, List.find?_eq_none, Bool.not_eq_true,
    Bool.not_eq_false', List.isEmpty_iff]

theorem firstIssues?_of_split {schema : Schema} {before : List Table} {table : Table}
    {after : List Table} (split : schema.tables = before ++ table :: after)
    (earlier : ∀ other ∈ before, other.issues = []) (issues : table.issues ≠ []) :
    schema.firstIssues? = some (table.name, table.issues) := by
  have found : schema.tables.find? (fun other => !other.issues.isEmpty) = some table := by
    rw [List.find?_eq_some_iff_append]
    constructor
    · rw [Bool.not_eq_true', List.isEmpty_eq_false_iff]
      exact issues
    · refine ⟨before, after, split, ?_⟩
      intro other member
      rw [earlier other member]
      rfl
  rw [firstIssues?, found]
  rfl

/-- Whatever the number of workers, each table is written on its own. -/
theorem outcomes_eq (schema : Schema) (settings : Settings) :
    WorkPool.run schema.tables.length settings.workers (schema.outcome settings) =
      schema.tablesWithOthers.map fun entry =>
        schema.tableModules settings entry.1 entry.2 := by
  rw [WorkPool.run_eq_map]
  apply List.ext_getElem
  · simp only [tablesWithOthers, List.length_map, List.length_range, List.length_mapIdx]
  · intro number below _
    have inRange : number < schema.tables.length := by
      simpa only [List.length_map, List.length_range] using below
    simp only [outcome, tablesWithOthers, List.getElem_map, List.getElem_range,
      List.getElem_mapIdx, List.getElem?_eq_getElem inRange]

theorem tableModules_of_faultless {schema : Schema} (settings : Settings) {table : Table}
    (others : List Table) (faultless : table.faults schema.tables = []) :
    schema.tableModules settings table others =
      .ok (.ofTable settings (table.resolved others schema)) := by
  simp only [tableModules, Table.resolve, faultless, Except.map]

theorem tableModules_of_faulty {schema : Schema} (settings : Settings) {table : Table}
    (others : List Table) (faulty : table.faults schema.tables ≠ []) :
    schema.tableModules settings table others = .error (table.faults schema.tables) := by
  cases found : table.faults schema.tables with
  | nil => exact absurd found faulty
  | cons fault rest => simp only [tableModules, Table.resolve, found, Except.map]

theorem faultsOf_outcomes (schema : Schema) (settings : Settings)
    (entries : List (Table × List Table)) :
    faultsOf (entries.map fun entry => schema.tableModules settings entry.1 entry.2) =
      entries.flatMap fun entry => entry.1.faults schema.tables := by
  induction entries with
  | nil => rfl
  | cons entry rest ih =>
      rw [List.map_cons, List.flatMap_cons]
      by_cases faultless : entry.1.faults schema.tables = []
      · rw [tableModules_of_faultless settings _ faultless, faultsOf, ih, faultless,
          List.nil_append]
      · rw [tableModules_of_faulty settings _ faultless, faultsOf, ih]

theorem modulesOf_outcomes {schema : Schema} (settings : Settings)
    {entries : List (Table × List Table)}
    (faultless : ∀ entry ∈ entries, entry.1.faults schema.tables = []) :
    modulesOf (entries.map fun entry => schema.tableModules settings entry.1 entry.2) =
      entries.map fun entry => .ofTable settings (entry.1.resolved entry.2 schema) := by
  induction entries with
  | nil => rfl
  | cons entry rest ih =>
      have first := faultless entry List.mem_cons_self
      have later := ih fun other member => faultless other (List.mem_cons_of_mem _ member)
      rw [List.map_cons, tableModules_of_faultless settings _ first, modulesOf, later,
        List.map_cons]

/-- The faults of all tables are the same for every number of workers. -/
theorem faultsOf_run (schema : Schema) (settings : Settings) :
    faultsOf (WorkPool.run schema.tables.length settings.workers (schema.outcome settings)) =
      schema.tables.flatMap fun table => table.faults schema.tables := by
  calc
    _ = schema.tablesWithOthers.flatMap fun entry => entry.1.faults schema.tables := by
      rw [outcomes_eq, faultsOf_outcomes]
    _ = (schema.tablesWithOthers.map Prod.fst).flatMap fun table =>
          table.faults schema.tables := by
      rw [List.flatMap_map]
    _ = _ := by rw [map_fst_tablesWithOthers]

theorem compile_of_valid {schema : Schema} (settings : Settings)
    (valid : ∀ table ∈ schema.tables, table.issues = []) :
    schema.compile settings = schema.assemble settings
      (WorkPool.run schema.tables.length settings.workers (schema.outcome settings)) := by
  rw [compile, firstIssues?_eq_none_iff.mpr valid]

theorem compile_of_faults {schema : Schema} (settings : Settings)
    (valid : ∀ table ∈ schema.tables, table.issues = [])
    (faulty : (schema.collisions ++
      schema.tables.flatMap fun table => table.faults schema.tables) ≠ []) :
    schema.compile settings = .error (.faults (schema.collisions ++
      schema.tables.flatMap fun table => table.faults schema.tables)) := by
  rw [compile_of_valid settings valid, assemble, faultsOf_run]
  cases found : schema.collisions ++
      schema.tables.flatMap fun table => table.faults schema.tables with
  | nil => exact absurd found faulty
  | cons fault rest => rfl

theorem compile_of_faultless {schema : Schema} (settings : Settings)
    (valid : ∀ table ∈ schema.tables, table.issues = [])
    (faultless : (schema.collisions ++
      schema.tables.flatMap fun table => table.faults schema.tables) = []) :
    schema.compile settings = .ok ⟨schema.artifacts settings (schema.modules settings)⟩ := by
  have each : ∀ entry ∈ schema.tablesWithOthers, entry.1.faults schema.tables = [] := by
    intro entry placed
    have none := List.flatMap_eq_nil_iff.mp (List.append_eq_nil_iff.mp faultless).2
    exact none entry.1 (mem_tables_of_placed placed)
  rw [compile_of_valid settings valid, assemble, faultsOf_run, faultless]
  simp only [outcomes_eq, modulesOf_outcomes settings each, modules]

/-- A compilation gives artifacts exactly when nothing at all is wrong. -/
theorem compile_eq_ok_iff {schema : Schema} {settings : Settings} {compilation : Compilation} :
    schema.compile settings = .ok compilation ↔
      (∀ table ∈ schema.tables, table.issues = []) ∧ schema.collisions = [] ∧
        (∀ table ∈ schema.tables, table.faults schema.tables = []) ∧
        compilation = ⟨schema.artifacts settings (schema.modules settings)⟩ := by
  constructor
  · intro compiled
    have valid : ∀ table ∈ schema.tables, table.issues = [] := by
      apply firstIssues?_eq_none_iff.mp
      cases first : schema.firstIssues? with
      | none => rfl
      | some issues =>
          rw [compile, first] at compiled
          cases compiled
    have faultless : (schema.collisions ++
        schema.tables.flatMap fun table => table.faults schema.tables) = [] := by
      by_contra faulty
      rw [compile_of_faults settings valid faulty] at compiled
      cases compiled
    rw [compile_of_faultless settings valid faultless] at compiled
    obtain ⟨clean, none⟩ := List.append_eq_nil_iff.mp faultless
    exact ⟨valid, clean, List.flatMap_eq_nil_iff.mp none, (Except.ok.inj compiled).symm⟩
  · rintro ⟨valid, clean, each, rfl⟩
    apply compile_of_faultless settings valid
    rw [clean, List.flatMap_eq_nil_iff.mpr each]
    rfl

/-- What a compilation has to come to. -/
structure Judged (schema : Schema) (result : Except CompileError Compilation) : Prop where
  /-- The first invalid table ends it, with exactly the issues of that table. -/
  invalid : ∀ before table after, schema.tables = before ++ table :: after →
    (∀ other ∈ before, other.issues = []) → table.issues ≠ [] →
      result = .error (.invalid table.name table.issues)
  /-- The checks of all tables come to one report. -/
  one_report : ∃ found, ∀ other, Reported schema.tables schema.checks other ↔ other = found
  /-- Collisions and failed checks end it where all tables are valid. -/
  faulty : (∀ table ∈ schema.tables, table.issues = []) →
    ∀ found, Reported schema.tables schema.checks found → schema.collisions ++ found ≠ [] →
      result = .error (.faults (schema.collisions ++ found))
  /-- Without any of them it succeeds. -/
  clean : (∀ table ∈ schema.tables, table.issues = []) →
    ∀ found, Reported schema.tables schema.checks found → schema.collisions ++ found = [] →
      ∃ compilation, result = .ok compilation
  /-- What is reported of a table stands in one piece between what is reported of
  the tables before and after it. -/
  unhidden : ∀ before table after, schema.tables = before ++ table :: after →
    ∀ found, Reported schema.tables schema.checks found →
      ∃ earlier own later, found = earlier ++ own ++ later ∧
        Reported schema.tables (before.flatMap fun other => other.checks.map (other, ·)) earlier ∧
        Reported schema.tables (table.checks.map (table, ·)) own ∧
        Reported schema.tables (after.flatMap fun other => other.checks.map (other, ·)) later

theorem compile_judged (schema : Schema) (settings : Settings) :
    schema.Judged (schema.compile settings) where
  invalid before table after split earlier issues := by
    rw [compile, firstIssues?_of_split split earlier issues]
  one_report := ⟨_, fun _ => reported_checks_iff⟩
  faulty valid found reported faulty := by
    obtain rfl := reported_checks_iff.mp reported
    exact compile_of_faults settings valid faulty
  clean valid found reported none := by
    obtain rfl := reported_checks_iff.mp reported
    exact ⟨_, compile_of_faultless settings valid none⟩
  unhidden before table after split found reported := by
    rw [checks] at reported
    nth_rewrite 2 [split] at reported
    rw [List.flatMap_append, List.flatMap_cons, Reported.append_iff] at reported
    obtain ⟨earlier, rest, rfl, beforeReported, restReported⟩ := reported
    obtain ⟨own, later, rfl, ownReported, afterReported⟩ :=
      Reported.append_iff.mp restReported
    exact ⟨earlier, own, later, (List.append_assoc ..).symm, beforeReported, ownReported,
      afterReported⟩

end Schema
end SchemaCompiler
