/-!
# Deadline queues

A deadline queue hands out its tasks by deadline, and tasks with one deadline in the order in which
they came. This is what a `TimeoutQueue` does with its heap, as long as its numbers do not go
around (`TimeoutQueue.refines_after`).

## Main definitions

* `DeadlineQueue τ`: tasks in the order in which they expire
* `DeadlineQueue.push`, `DeadlineQueue.expire`: adds a task, and takes out those that are due
-/

namespace Admission

/-- A task with its deadline. -/
structure Timed (τ : Type) where
  /-- The time at which the task is due. -/
  deadline : UInt64
  task : τ
deriving DecidableEq, Repr

/-- Tasks in the order in which they expire. -/
structure DeadlineQueue (τ : Type) where
  /-- The tasks, by deadline, and for one deadline the oldest first. -/
  entries : List (Timed τ)
deriving DecidableEq, Repr

namespace DeadlineQueue

variable {τ : Type}

/-- No tasks. -/
def empty : DeadlineQueue τ := ⟨[]⟩

/-- Puts a task behind all that are due no later. -/
def insert (e : Timed τ) : List (Timed τ) → List (Timed τ)
  | [] => [e]
  | f :: rest => if e.deadline < f.deadline then e :: f :: rest else f :: insert e rest

/-- Adds a task. -/
def push (q : DeadlineQueue τ) (task : τ) (deadline : UInt64) : DeadlineQueue τ :=
  ⟨insert ⟨deadline, task⟩ q.entries⟩

/-- The nearest deadline. -/
def nextDeadline (q : DeadlineQueue τ) : Option UInt64 := q.entries.head?.map (·.deadline)

/-- Takes out the tasks that are due at `now`, in order. -/
def expire (q : DeadlineQueue τ) (now : UInt64) : DeadlineQueue τ × List τ :=
  (⟨q.entries.dropWhile (·.deadline ≤ now)⟩, (q.entries.takeWhile (·.deadline ≤ now)).map (·.task))

/-- The number of tasks. -/
def size (q : DeadlineQueue τ) : Nat := q.entries.length

end DeadlineQueue

end Admission
