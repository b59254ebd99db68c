import Mathlib.Data.List.Nodup
import SchemaCompiler.Proofs.WorkPool.Schedules

/-
Journals of a pool of workers.

A journal lists what the steps of a schedule do: which worker takes which number, and
which worker stores the result for which number.  The counter gives out numbers in order,
so a journal takes each number at most once whoever asks; and a number is held only if it
has a slot, so a journal never stores out of range.  A pool whose workers have all stopped
has therefore taken every number once and filled every slot.
-/

namespace SchemaCompiler
namespace WorkPool

variable {α : Type}

inductive Action where
  | take (number : Nat)
  | store (number : Nat)
deriving DecidableEq, Repr

def Action.taken? : Nat × Action → Option Nat
  | (_, .take number) => some number
  | (_, .store _) => none

namespace Pool

/-- What the next step of a worker does. -/
def entries (pool : Pool α) (worker : Nat) : List (Nat × Action) :=
  match pool.workers[worker]? with
  | some .idle => [(worker, .take pool.counter)]
  | some (.holding number) => [(worker, .store number)]
  | some .stopped => []
  | none => []

/-- What the steps of a schedule do. -/
def journal (job : Nat → α) (pool : Pool α) : (schedule : List Nat) → List (Nat × Action)
  | [] => []
  | worker :: rest => pool.entries worker ++ journal job (pool.step job worker) rest

theorem mem_entries {pool : Pool α} {worker : Nat} {entry : Nat × Action}
    (member : entry ∈ pool.entries worker) :
    (pool.workers[worker]? = some .idle ∧ entry = (worker, .take pool.counter)) ∨
      ∃ number, pool.workers[worker]? = some (.holding number) ∧
        entry = (worker, .store number) := by
  unfold entries at member
  split at member
  · exact Or.inl ⟨‹_›, List.mem_singleton.mp member⟩
  · exact Or.inr ⟨_, ‹_›, List.mem_singleton.mp member⟩
  · cases member
  · cases member

theorem worker_lt_of_mem_journal {job : Nat → α} {pool : Pool α} {schedule : List Nat}
    {entry : Nat × Action} (member : entry ∈ pool.journal job schedule) :
    entry.1 < pool.workers.length := by
  induction schedule generalizing pool with
  | nil => cases member
  | cons worker rest ih =>
      rcases List.mem_append.mp member with now | later
      · rcases mem_entries now with ⟨found, rfl⟩ | ⟨number, found, rfl⟩
        · exact (List.getElem?_eq_some_iff.mp found).1
        · exact (List.getElem?_eq_some_iff.mp found).1
      · exact length_workers_step job pool worker ▸ ih later

theorem range_append_entries (job : Nat → α) (pool : Pool α) (worker : Nat) :
    List.range pool.counter ++ (pool.entries worker).filterMap Action.taken? =
      List.range (pool.step job worker).counter := by
  rcases found : pool.workers[worker]? with _ | _ | number | _
  · simp [entries, step, found]
  · simp [entries, step, found, Action.taken?, List.range_succ]
  · simp [entries, step, found, Action.taken?]
  · simp [entries, step, found]

/-- The counter gives out the numbers in order. -/
theorem range_append_journal (job : Nat → α) (pool : Pool α) (schedule : List Nat) :
    List.range pool.counter ++ (pool.journal job schedule).filterMap Action.taken? =
      List.range (pool.execute job schedule).counter := by
  induction schedule generalizing pool with
  | nil => exact List.append_nil _
  | cons worker rest ih =>
      rw [journal, List.filterMap_append, ← List.append_assoc, range_append_entries job, ih]
      rfl

def HoldsSlots (pool : Pool α) : Prop :=
  ∀ number, .holding number ∈ pool.workers → number < pool.slots.length

theorem holdsSlots_start (count workers : Nat) : (start count workers : Pool α).HoldsSlots := by
  intro number member
  simp [start] at member

theorem HoldsSlots.step {pool : Pool α} (holds : pool.HoldsSlots) (job : Nat → α)
    (worker : Nat) : (pool.step job worker).HoldsSlots := by
  unfold Pool.step
  split
  · intro number member
    rcases List.mem_or_eq_of_mem_set member with before | new
    · exact holds number before
    · unfold afterTaking at new
      split at new
      · cases new
        assumption
      · cases new
  · intro number member
    rcases List.mem_or_eq_of_mem_set member with before | new
    · simpa using holds number before
    · cases new
  · exact holds
  · exact holds

theorem length_slots_step (job : Nat → α) (pool : Pool α) (worker : Nat) :
    (pool.step job worker).slots.length = pool.slots.length := by
  unfold Pool.step
  split <;> simp

theorem HoldsSlots.store_lt {pool : Pool α} (holds : pool.HoldsSlots) {job : Nat → α}
    {schedule : List Nat} {worker number : Nat}
    (member : (worker, .store number) ∈ pool.journal job schedule) :
    number < pool.slots.length := by
  induction schedule generalizing pool with
  | nil => cases member
  | cons first rest ih =>
      rcases List.mem_append.mp member with now | later
      · rcases mem_entries now with ⟨_, taking⟩ | ⟨held, found, storing⟩
        · cases taking
        · cases storing
          exact holds number (List.mem_of_getElem? found)
      · exact length_slots_step job pool first ▸ ih (holds.step job first) later

end Pool

theorem length_filter_take (entries : List (Nat × Action)) (number : Nat) :
    (entries.filter fun entry => entry.2 = .take number).length =
      (entries.filterMap Action.taken?).count number := by
  induction entries with
  | nil => rfl
  | cons entry rest ih =>
      obtain ⟨worker, taken | stored⟩ := entry
      · by_cases same : taken = number
        · simp [Action.taken?, same, ih]
        · simp [Action.taken?, same, ih]
      · have skipped : Action.taken? (worker, .store stored) = none := rfl
        simp [skipped, ih]

/-- What is true of a pool whose workers have all stopped after a schedule. -/
structure Completed (job : Nat → α) (count workers : Nat) (schedule : List Nat) : Prop where
  taken_once : ∀ number < count, ∃ worker < workers,
    (((Pool.start count workers).journal job schedule).filter fun entry =>
      entry.2 = .take number) = [(worker, .take number)]
  stored_in_range : ∀ worker number,
    (worker, .store number) ∈ (Pool.start count workers).journal job schedule → number < count
  slots_eq : ((Pool.start count workers).execute job schedule).slots =
    (List.range count).map (some ∘ job)
  results_eq : ((Pool.start count workers).execute job schedule).results =
    (List.range count).map job

/-- Whatever the schedule, a pool whose workers have all stopped is completed. -/
theorem completed_of_isFinished (job : Nat → α) {count workers : Nat} {schedule : List Nat}
    (crew : 0 < workers)
    (finished : ((Pool.start count workers).execute job schedule).isFinished = true) :
    Completed job count workers schedule := by
  have sound := (Pool.sound_start job count workers).execute schedule
  have working : 0 < ((Pool.start count workers).execute job schedule).workers.length := by
    rw [Pool.length_workers_execute_start]
    exact crew
  constructor
  · intro number below
    have late := sound.counter_ge working finished
    have inOrder := Pool.range_append_journal job (.start count workers) schedule
    rw [show List.range (Pool.start (α := α) count workers).counter = [] from rfl,
      List.nil_append] at inOrder
    have once := List.count_eq_one_of_mem List.nodup_range
      (List.mem_range.mpr (Nat.lt_of_lt_of_le below late))
    rw [← inOrder, ← length_filter_take] at once
    obtain ⟨⟨worker, action⟩, only⟩ := List.length_eq_one_iff.mp once
    have member := List.mem_filter.mp (only ▸ List.mem_singleton_self (worker, action))
    obtain rfl : action = .take number := by simpa using member.2
    have inCrew := Pool.worker_lt_of_mem_journal member.1
    exact ⟨worker, by simpa [Pool.start] using inCrew, only⟩
  · intro worker number member
    have inRange := (Pool.holdsSlots_start count workers).store_lt member
    simpa [Pool.start] using inRange
  · exact sound.slots_eq working finished
  · exact sound.results_eq working finished

/-- What a pool may return, whatever the interleaving of its workers.  One worker alone
leaves no choice. -/
def MayReturn (count workers : Nat) (job : Nat → α) (results : List α) : Prop :=
  let crew := min workers count
  if crew ≤ 1 then results = (List.range count).map job
  else ∃ schedule, ((Pool.start count crew).execute job schedule).isFinished = true ∧
    results = ((Pool.start count crew).execute job schedule).results

/-- A pool may return the results in the order of their numbers and nothing else. -/
theorem mayReturn_iff {count workers : Nat} {job : Nat → α} {results : List α} :
    MayReturn count workers job results ↔ results = (List.range count).map job := by
  by_cases few : min workers count ≤ 1
  · simp only [MayReturn, few, if_true]
  · simp only [MayReturn, few, if_false]
    have crew : 0 < min workers count := by omega
    constructor
    · rintro ⟨schedule, finished, rfl⟩
      exact (completed_of_isFinished job crew finished).results_eq
    · rintro rfl
      have finished := Pool.isFinished_finish_start job count (min workers count)
      obtain ⟨schedule, same⟩ := Pool.exists_execute_eq_finish job
        (2 * count + min workers count) (.start count (min workers count))
      rw [← same] at finished
      exact ⟨schedule, finished, (completed_of_isFinished job crew finished).results_eq.symm⟩

end WorkPool
end SchemaCompiler
