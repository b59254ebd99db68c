import SchemaCompiler.Schema.WorkPool

/-
Schedules of a pool of workers.

`Pool.Sound` holds before the first step and is kept by every step, so it holds
after every schedule.  A sound pool that is finished holds all results, and a
round of steps brings an unfinished pool closer to its end.  Hence the main
statement: what a pool returns is the list of results in the order of their
numbers, however many workers there are.
-/

namespace SchemaCompiler
namespace WorkPool

variable {α : Type}

namespace Pool

/-- Every number that was taken is stored or held, and a worker stops only when
all numbers were taken. -/
structure Sound (job : Nat → α) (count : Nat) (pool : Pool α) : Prop where
  /-- There is a slot for each number. -/
  length_slots : pool.slots.length = count
  /-- A number that was taken is stored or held. -/
  stored_or_held : ∀ number, number < count → number < pool.counter →
    pool.slots[number]? = some (some (job number)) ∨ .holding number ∈ pool.workers
  /-- A worker stops only when all numbers were taken. -/
  stopped_late : .stopped ∈ pool.workers → count ≤ pool.counter

theorem sound_start (job : Nat → α) (count workers : Nat) :
    (start count workers).Sound job count where
  length_slots := by simp [start]
  stored_or_held number _ taken := by simp [start] at taken
  stopped_late member := by simp [start] at member

/-- What a worker holds is not touched by the step of another worker that was
about to do something else. -/
theorem holding_mem_set {workers : List Worker} {place number : Nat} {before after : Worker}
    (found : workers[place]? = some before) (different : before ≠ .holding number)
    (held : .holding number ∈ workers) : .holding number ∈ workers.set place after := by
  obtain ⟨other, position⟩ := List.mem_iff_getElem?.mp held
  have apart : place ≠ other := by
    intro same
    rw [same, position] at found
    exact different (Option.some.inj found).symm
  exact List.mem_iff_getElem?.mpr ⟨other, by rw [List.getElem?_set_ne apart, position]⟩

theorem Sound.take {job : Nat → α} {count : Nat} {pool : Pool α}
    (sound : pool.Sound job count) {worker : Nat}
    (found : pool.workers[worker]? = some .idle) :
    Sound job count
      { pool with
        counter := pool.counter + 1
        workers := pool.workers.set worker pool.afterTaking } where
  length_slots := sound.length_slots
  stored_or_held number below taken := by
    rcases Nat.lt_or_eq_of_le (Nat.le_of_lt_succ taken) with earlier | now
    · rcases sound.stored_or_held number below earlier with stored | held
      · exact Or.inl stored
      · exact Or.inr (holding_mem_set found nofun held)
    · subst now
      have takes : pool.afterTaking = .holding pool.counter := by
        simp [afterTaking, sound.length_slots, below]
      rw [takes]
      exact Or.inr (List.mem_set (List.getElem?_eq_some_iff.mp found).1 _)
  stopped_late member := by
    rcases List.mem_or_eq_of_mem_set member with before | new
    · exact Nat.le_succ_of_le (sound.stopped_late before)
    · unfold afterTaking at new
      split at new
      · cases new
      · rename_i exhausted
        rw [sound.length_slots] at exhausted
        exact Nat.le_succ_of_le (Nat.le_of_not_lt exhausted)

theorem Sound.store {job : Nat → α} {count : Nat} {pool : Pool α}
    (sound : pool.Sound job count) {worker number : Nat}
    (found : pool.workers[worker]? = some (.holding number)) :
    Sound job count
      { pool with
        workers := pool.workers.set worker .idle
        slots := pool.slots.set number (some (job number)) } where
  length_slots := by simpa using sound.length_slots
  stored_or_held other below taken := by
    by_cases same : number = other
    · subst same
      exact Or.inl (List.getElem?_set_self (by rw [sound.length_slots]; exact below))
    · rcases sound.stored_or_held other below taken with stored | held
      · exact Or.inl (by rw [List.getElem?_set_ne same]; exact stored)
      · exact Or.inr (holding_mem_set found (fun equal => same (Worker.holding.inj equal)) held)
  stopped_late member := by
    rcases List.mem_or_eq_of_mem_set member with before | new
    · exact sound.stopped_late before
    · cases new

theorem Sound.step {job : Nat → α} {count : Nat} {pool : Pool α}
    (sound : pool.Sound job count) (worker : Nat) :
    (pool.step job worker).Sound job count := by
  unfold Pool.step
  split
  · exact sound.take ‹_›
  · exact sound.store ‹_›
  · exact sound
  · exact sound

/-- Soundness holds after every schedule. -/
theorem Sound.execute {job : Nat → α} {count : Nat} {pool : Pool α}
    (sound : pool.Sound job count) (schedule : List Nat) :
    (pool.execute job schedule).Sound job count := by
  induction schedule generalizing pool with
  | nil => exact sound
  | cons worker rest ih => exact ih (sound.step worker)

theorem length_workers_step (job : Nat → α) (pool : Pool α) (worker : Nat) :
    (pool.step job worker).workers.length = pool.workers.length := by
  unfold Pool.step
  split <;> simp

theorem length_workers_execute (job : Nat → α) (pool : Pool α) (schedule : List Nat) :
    (pool.execute job schedule).workers.length = pool.workers.length := by
  induction schedule generalizing pool with
  | nil => rfl
  | cons worker rest ih => exact (ih _).trans (length_workers_step job pool worker)

/-- All numbers were taken once workers have stopped. -/
theorem Sound.counter_ge {job : Nat → α} {count : Nat} {pool : Pool α}
    (sound : pool.Sound job count) (crew : 0 < pool.workers.length)
    (finished : pool.isFinished = true) : count ≤ pool.counter := by
  have stopped : ∀ worker ∈ pool.workers, worker = .stopped := by
    simpa [isFinished] using finished
  obtain ⟨worker, member⟩ := List.exists_mem_of_length_pos crew
  exact sound.stopped_late (stopped worker member ▸ member)

/-- A sound pool with workers that all have stopped has filled each slot with the result
for its number. -/
theorem Sound.slots_eq {job : Nat → α} {count : Nat} {pool : Pool α}
    (sound : pool.Sound job count) (crew : 0 < pool.workers.length)
    (finished : pool.isFinished = true) : pool.slots = (List.range count).map (some ∘ job) := by
  have stopped : ∀ worker ∈ pool.workers, worker = .stopped := by
    simpa [isFinished] using finished
  have late : count ≤ pool.counter := sound.counter_ge crew finished
  apply List.ext_getElem?
  intro number
  rcases Nat.lt_or_ge number count with below | above
  · rcases sound.stored_or_held number below (Nat.lt_of_lt_of_le below late) with
      stored | held
    · rw [stored]
      simp [below]
    · cases stopped _ held
  · rw [List.getElem?_eq_none (by rw [sound.length_slots]; exact above)]
    simp [above]

/-- A sound pool with workers that all have stopped holds every result. -/
theorem Sound.results_eq {job : Nat → α} {count : Nat} {pool : Pool α}
    (sound : pool.Sound job count) (crew : 0 < pool.workers.length)
    (finished : pool.isFinished = true) : pool.results = (List.range count).map job := by
  simp [results, sound.slots_eq crew finished, List.filterMap_map, Function.comp_def]

/-- The steps that a worker makes if it takes no further number. -/
def stepsOf : Worker → Nat
  | .idle => 1
  | .holding _ => 2
  | .stopped => 0

/-- The steps that workers make if none takes a further number. -/
def stepsOfAll : List Worker → Nat
  | [] => 0
  | worker :: rest => stepsOf worker + stepsOfAll rest

/-- A bound of the steps that are left. -/
def stepsLeft (pool : Pool α) : Nat :=
  2 * (pool.slots.length - pool.counter) + stepsOfAll pool.workers

theorem stepsOfAll_replicate_idle (count : Nat) :
    stepsOfAll (List.replicate count .idle) = count := by
  induction count with
  | zero => rfl
  | succ count ih =>
      simp only [List.replicate_succ, stepsOfAll, stepsOf, ih]
      omega

theorem stepsOfAll_set {workers : List Worker} {place : Nat} {before : Worker}
    (found : workers[place]? = some before) (after : Worker) :
    stepsOfAll (workers.set place after) + stepsOf before =
      stepsOfAll workers + stepsOf after := by
  induction workers generalizing place with
  | nil => cases found
  | cons first rest ih =>
      cases place with
      | zero =>
          rw [List.getElem?_cons_zero] at found
          rw [Option.some.inj found]
          simp only [List.set_cons_zero, stepsOfAll]
          omega
      | succ place =>
          have inRest := ih (List.getElem?_cons_succ ▸ found)
          simp only [List.set_cons_succ, stepsOfAll]
          omega

theorem stepsLeft_take {pool : Pool α} {worker : Nat}
    (found : pool.workers[worker]? = some .idle) :
    stepsLeft
        { pool with
          counter := pool.counter + 1
          workers := pool.workers.set worker pool.afterTaking } <
      pool.stepsLeft := by
  have sums := stepsOfAll_set found pool.afterTaking
  simp only [stepsLeft]
  by_cases more : pool.counter < pool.slots.length
  · simp only [afterTaking, more, if_true, stepsOf] at sums ⊢
    omega
  · simp only [afterTaking, more, if_false, stepsOf] at sums ⊢
    omega

theorem stepsLeft_store {pool : Pool α} {worker number : Nat} {result : Option α}
    (found : pool.workers[worker]? = some (.holding number)) :
    stepsLeft
        { pool with
          workers := pool.workers.set worker .idle
          slots := pool.slots.set number result } <
      pool.stepsLeft := by
  have sums := stepsOfAll_set found .idle
  simp only [stepsLeft, List.length_set, stepsOf] at sums ⊢
  omega

theorem stepsLeft_step_lt (job : Nat → α) {pool : Pool α} {worker : Nat} {doing : Worker}
    (found : pool.workers[worker]? = some doing) (busy : doing ≠ .stopped) :
    (pool.step job worker).stepsLeft < pool.stepsLeft := by
  unfold Pool.step
  split
  · exact stepsLeft_take ‹_›
  · exact stepsLeft_store ‹_›
  · rename_i stopped
    rw [stopped] at found
    exact absurd (Option.some.inj found).symm busy
  · rename_i missing
    rw [missing] at found
    cases found

theorem stepsLeft_step_le (job : Nat → α) (pool : Pool α) (worker : Nat) :
    (pool.step job worker).stepsLeft ≤ pool.stepsLeft := by
  unfold Pool.step
  split
  · exact Nat.le_of_lt (stepsLeft_take ‹_›)
  · exact Nat.le_of_lt (stepsLeft_store ‹_›)
  · exact Nat.le_refl _
  · exact Nat.le_refl _

theorem stepsLeft_execute_le (job : Nat → α) (pool : Pool α) (schedule : List Nat) :
    (pool.execute job schedule).stepsLeft ≤ pool.stepsLeft := by
  induction schedule generalizing pool with
  | nil => exact Nat.le_refl _
  | cons worker rest ih => exact Nat.le_trans (ih _) (stepsLeft_step_le job pool worker)

/-- The step of one worker changes no other worker. -/
theorem workers_step_of_ne (job : Nat → α) {pool : Pool α} {worker other : Nat}
    (apart : worker ≠ other) :
    (pool.step job worker).workers[other]? = pool.workers[other]? := by
  unfold Pool.step
  split <;> simp [List.getElem?_set_ne apart]

/-- A schedule that calls a worker with something to do shortens what is left. -/
theorem stepsLeft_execute_lt (job : Nat → α) {pool : Pool α} {schedule : List Nat}
    {worker : Nat} {doing : Worker} (called : worker ∈ schedule)
    (found : pool.workers[worker]? = some doing) (busy : doing ≠ .stopped) :
    (pool.execute job schedule).stepsLeft < pool.stepsLeft := by
  induction schedule generalizing pool with
  | nil => cases called
  | cons first rest ih =>
      show ((pool.step job first).execute job rest).stepsLeft < pool.stepsLeft
      by_cases same : first = worker
      · subst same
        exact Nat.lt_of_le_of_lt (stepsLeft_execute_le job _ rest)
          (stepsLeft_step_lt job found busy)
      · have later : worker ∈ rest :=
          (List.mem_cons.mp called).resolve_left fun equal => same equal.symm
        exact Nat.lt_of_lt_of_le
          (ih later ((workers_step_of_ne job same).trans found))
          (stepsLeft_step_le job pool first)

theorem stepsLeft_round_lt (job : Nat → α) {pool : Pool α} (unfinished : ¬pool.isFinished) :
    (pool.round job).stepsLeft < pool.stepsLeft := by
  have working : ∃ doing ∈ pool.workers, doing ≠ .stopped := by
    simpa [isFinished] using unfinished
  obtain ⟨doing, member, busy⟩ := working
  obtain ⟨worker, found⟩ := List.mem_iff_getElem?.mp member
  have called : worker ∈ List.range pool.workers.length :=
    List.mem_range.mpr (List.getElem?_eq_some_iff.mp found).1
  exact stepsLeft_execute_lt job called found busy

/-- As many rounds as there are steps left finish a pool. -/
theorem isFinished_finish (job : Nat → α) (rounds : Nat) (pool : Pool α)
    (enough : pool.stepsLeft ≤ rounds) : (pool.finish job rounds).isFinished = true := by
  induction rounds generalizing pool with
  | zero =>
      apply Decidable.byContradiction
      intro unfinished
      have shorter : (pool.round job).stepsLeft < pool.stepsLeft :=
        stepsLeft_round_lt job unfinished
      omega
  | succ rounds ih =>
      unfold finish
      split
      · assumption
      · rename_i unfinished
        have shorter := stepsLeft_round_lt job unfinished
        exact ih _ (by omega)

/-- Each number is taken and stored once and each worker stops once. -/
theorem isFinished_finish_start (job : Nat → α) (count workers : Nat) :
    ((start count workers).finish job (2 * count + workers)).isFinished = true :=
  isFinished_finish job _ _ (by simp [stepsLeft, start, stepsOfAll_replicate_idle])

/-- Rounds are a schedule. -/
theorem exists_execute_eq_finish (job : Nat → α) (rounds : Nat) (pool : Pool α) :
    ∃ schedule, pool.execute job schedule = pool.finish job rounds := by
  induction rounds generalizing pool with
  | zero => exact ⟨[], rfl⟩
  | succ rounds ih =>
      unfold finish
      split
      · exact ⟨[], rfl⟩
      · obtain ⟨schedule, same⟩ := ih (pool.round job)
        refine ⟨List.range pool.workers.length ++ schedule, ?_⟩
        rw [← same]
        simp [round, execute, List.foldl_append]

theorem length_workers_execute_start (job : Nat → α) (count workers : Nat)
    (schedule : List Nat) :
    ((start count workers).execute job schedule).workers.length = workers := by
  simp [length_workers_execute, start]

end Pool

/-- A pool returns the results in the order of their numbers. -/
theorem run_eq_map (count workers : Nat) (job : Nat → α) :
    run count workers job = (List.range count).map job := by
  by_cases few : min workers count ≤ 1
  · simp [run, few]
  · simp only [run, few, if_false]
    have finished := Pool.isFinished_finish_start job count (min workers count)
    obtain ⟨schedule, same⟩ := Pool.exists_execute_eq_finish job
      (2 * count + min workers count) (.start count (min workers count))
    rw [← same] at finished ⊢
    refine ((Pool.sound_start job count _).execute schedule).results_eq ?_ finished
    rw [Pool.length_workers_execute_start]
    omega

end WorkPool
end SchemaCompiler
