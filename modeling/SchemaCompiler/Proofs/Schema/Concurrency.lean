import SchemaCompiler.Proofs.Schema.Outcome
import SchemaCompiler.Proofs.WorkPool.Journal

/-
Compiling with any interleaving of workers.

The tables of a schema are written by a pool of workers, and nothing says in which order
the workers step.  A schema may compile to what some interleaving of them gives.  Since
all interleavings that end return the same results, this is one outcome, and the number of
workers does not show in it either.
-/

namespace SchemaCompiler
namespace Schema

/-- What compiling a schema may give, whatever the interleaving of the workers. -/
def MayCompileTo (schema : Schema) (settings : Settings)
    (result : Except CompileError Compilation) : Prop :=
  match schema.firstIssues? with
  | some (table, issues) => result = .error (.invalid table issues)
  | none =>
      ∃ outcomes,
        WorkPool.MayReturn schema.tables.length settings.workers (schema.outcome settings)
          outcomes ∧
        result = schema.assemble settings outcomes

theorem mayCompileTo_iff {schema : Schema} {settings : Settings}
    {result : Except CompileError Compilation} :
    schema.MayCompileTo settings result ↔ result = schema.compile settings := by
  unfold MayCompileTo compile
  rcases schema.firstIssues? with _ | ⟨table, issues⟩
  · simp only [WorkPool.mayReturn_iff, exists_eq_left, WorkPool.run_eq_map]
  · exact Iff.rfl

/-- The number of workers does not show in what is compiled. -/
theorem compile_workers (schema : Schema) (settings : Settings) (workers : Nat) :
    schema.compile { settings with workers := workers } = schema.compile settings := by
  simp only [compile, WorkPool.run_eq_map]
  rfl

/-- Whatever the interleaving of its workers, a pool whose workers have all stopped has
taken every number once, stored every result in its slot, and returns what one worker alone
would.  Hence a schema has one outcome for all numbers of workers and all interleavings. -/
theorem compile_schedule_independent :
    (∀ {α : Type} (job : Nat → α) (count workers : Nat) (schedule : List Nat), 0 < workers →
      ((WorkPool.Pool.start count workers).execute job schedule).isFinished = true →
      WorkPool.Completed job count workers schedule) ∧
    (∀ {α : Type} (job : Nat → α) (count workers : Nat) (results : List α),
      WorkPool.MayReturn count workers job results ↔ results = (List.range count).map job) ∧
    ∀ (schema : Schema) (settings : Settings) (workers : Nat)
      (result : Except CompileError Compilation),
      schema.MayCompileTo { settings with workers := workers } result ↔
        result = schema.compile settings := by
  refine ⟨?_, ?_, ?_⟩
  · intro α job count workers schedule crew finished
    exact WorkPool.completed_of_isFinished job crew finished
  · intro α job count workers results
    exact WorkPool.mayReturn_iff
  · intro schema settings workers result
    rw [mayCompileTo_iff, compile_workers]

/-- Two workers share three numbers: the first takes one and is overtaken by the second,
which stores the results of two. -/
theorem compile_schedule_independent_of_overtaking :
    ((WorkPool.Pool.start 3 2).execute (fun number => number * number)
      [0, 1, 1, 1, 0, 1, 1, 0]).isFinished = true ∧
    WorkPool.Completed (fun number => number * number) 3 2 [0, 1, 1, 1, 0, 1, 1, 0] := by
  have finished : ((WorkPool.Pool.start 3 2).execute (fun number => number * number)
      [0, 1, 1, 1, 0, 1, 1, 0]).isFinished = true := by decide
  exact ⟨finished,
    compile_schedule_independent.1 _ 3 2 [0, 1, 1, 1, 0, 1, 1, 0] (by decide) finished⟩

end Schema
end SchemaCompiler
