/-
Sharing work among workers.

A pool computes `job 0`, …, `job (count - 1)`.  Its workers take numbers from a
shared counter and put each result into the slot of its number.  A worker moves
in atomic steps: it takes the next number, or it stores the result for the number
that it holds.  It stops once it takes a number that is out of range.

A schedule names the worker of each step, so every interleaving of the workers is
a schedule.  `run` lets the workers step in turn.  It is one schedule among many;
what it returns does not depend on that choice.
-/

namespace SchemaCompiler
namespace WorkPool

variable {α : Type}

/-- What a worker is about to do. -/
inductive Worker where
  /-- Take the next number. -/
  | idle
  /-- Store the result for a number. -/
  | holding (number : Nat)
  /-- Nothing more. -/
  | stopped
deriving DecidableEq, Repr

/-- A pool between two steps. -/
structure Pool (α : Type) where
  /-- The next number. -/
  counter : Nat
  /-- The workers. -/
  workers : List Worker
  /-- The results, by number. -/
  slots : List (Option α)

namespace Pool

/-- A pool before its first step. -/
def start (count workers : Nat) : Pool α :=
  ⟨0, List.replicate workers .idle, List.replicate count none⟩

/-- What a worker does after it took a number: a number has a slot, or there is
nothing more to do. -/
def afterTaking (pool : Pool α) : Worker :=
  if pool.counter < pool.slots.length then .holding pool.counter else .stopped

/-- The step of one worker. -/
def step (job : Nat → α) (pool : Pool α) (worker : Nat) : Pool α :=
  match pool.workers[worker]? with
  | some .idle =>
      { pool with
        counter := pool.counter + 1
        workers := pool.workers.set worker pool.afterTaking }
  | some (.holding number) =>
      { pool with
        workers := pool.workers.set worker .idle
        slots := pool.slots.set number (some (job number)) }
  | some .stopped => pool
  | none => pool

/-- The pool after the steps of a schedule. -/
def execute (job : Nat → α) (pool : Pool α) (schedule : List Nat) : Pool α :=
  schedule.foldl (step job) pool

/-- Whether no worker has anything more to do. -/
def isFinished (pool : Pool α) : Bool :=
  pool.workers.all fun worker => worker == .stopped

/-- The results in the slots that are filled, in order. -/
def results (pool : Pool α) : List α :=
  pool.slots.filterMap id

/-- The pool after a step of every worker in turn. -/
def round (job : Nat → α) (pool : Pool α) : Pool α :=
  pool.execute job (List.range pool.workers.length)

/-- The pool after rounds until no worker has anything more to do, but no more
than `rounds` of them. -/
def finish (job : Nat → α) : (rounds : Nat) → Pool α → Pool α
  | 0, pool => pool
  | rounds + 1, pool =>
      if pool.isFinished then pool else finish job rounds (pool.round job)

end Pool

/-- What a pool returns.  No more workers are called than there are numbers, and
one worker alone computes them in order.  Each number is taken and stored once and
each worker stops once, which bounds the rounds. -/
def run (count workers : Nat) (job : Nat → α) : List α :=
  let crew := min workers count
  if crew ≤ 1 then (List.range count).map job
  else ((Pool.start count crew).finish job (2 * count + crew)).results

example : run 5 2 (· + 1) = [1, 2, 3, 4, 5] := by decide
example : run 3 0 (· + 1) = [1, 2, 3] := by decide

end WorkPool
end SchemaCompiler
