import Admission.Deadline.Heap

/-!
# Queues of timeouts

A queue of timeouts keeps its tasks in a heap, ordered by deadline and, for one deadline, by the
number that each task got when it was added. Numbers are words, so they go around after the largest
one. What is due is taken out one task at a time, as long as the nearest deadline has come.

## Main definitions

* `QueueEntry τ`: a task with its deadline and its number, and how entries are compared
* `TimeoutQueue τ`: a heap of entries, the least first
* `TimeoutQueue.push`, `TimeoutQueue.nextDeadline`, `TimeoutQueue.expire`: adds a task, looks at the
  nearest deadline, and takes out what is due

## Main results

* `TimeoutQueue.size_turn_lt`: every turn of the loop takes a task out, so the loop comes to its end
* `TimeoutQueue.perm_expire`: what is taken out and what is left are the tasks that were there
-/

namespace Admission

/-- A task of a queue. -/
structure QueueEntry (τ : Type) where
  /-- The time at which the task is due. -/
  deadline : UInt64
  /-- The number that the task got when it was added. -/
  seq : UInt64
  task : τ
deriving DecidableEq, Repr

namespace QueueEntry

variable {τ : Type}

/-- Entries are compared by deadline, and those with one deadline by their numbers. -/
instance : Ord (QueueEntry τ) where
  compare := compareLex (compareOn deadline) (compareOn seq)

instance : Std.TransOrd (QueueEntry τ) :=
  inferInstanceAs (Std.TransCmp (compareLex (compareOn deadline) (compareOn seq)))

end QueueEntry

/-- Tasks in a heap, the one that expires first on top. -/
structure TimeoutQueue (τ : Type) where
  heap : MaxHeap (Reversed (QueueEntry τ))
  /-- The number of the next task that is added. -/
  nextSeq : UInt64
deriving DecidableEq, Repr

namespace TimeoutQueue

variable {τ : Type}

/-- No tasks, and none has been added. -/
def empty : TimeoutQueue τ := ⟨.empty, 0⟩

/-- Adds a task. -/
def push (q : TimeoutQueue τ) (task : τ) (deadline : UInt64) : TimeoutQueue τ where
  heap := q.heap.push ⟨⟨deadline, q.nextSeq, task⟩⟩
  nextSeq := q.nextSeq + 1

/-- The nearest deadline. -/
def nextDeadline (q : TimeoutQueue τ) : Option UInt64 := q.heap.peek?.map (·.val.deadline)

/-- The number of tasks. -/
def size (q : TimeoutQueue τ) : Nat := q.heap.size

/-- Whether there is no task. -/
def isEmpty (q : TimeoutQueue τ) : Bool := q.heap.isEmpty

/-- Drops all tasks. Numbers go on from where they are. -/
def clear (q : TimeoutQueue τ) : TimeoutQueue τ := { q with heap := .empty }

/-- The tasks, in an order that does not matter. -/
def tasks (q : TimeoutQueue τ) : List τ := q.heap.items.map (·.val.task)

/-! ## Taking out what is due -/

/-- Whether the nearest deadline has come. -/
def isDue (q : TimeoutQueue τ) (now : UInt64) : Bool := q.nextDeadline.any (· ≤ now)

/-- Takes out the first task, behind those that have been taken out. -/
def turn (s : TimeoutQueue τ × List τ) : TimeoutQueue τ × List τ :=
  match s.1.heap.pop? with
  | some (e, heap) => ({ s.1 with heap }, s.2 ++ [e.val.task])
  | none => s

variable {q : TimeoutQueue τ} {now : UInt64} {s : TimeoutQueue τ × List τ}

theorem exists_pop?_of_isDue (h : q.isDue now = true) : ∃ e heap, q.heap.pop? = some (e, heap) := by
  unfold isDue nextDeadline at h
  rw [MaxHeap.peek?_eq] at h
  cases hpop : q.heap.pop? with
  | none =>
    rw [hpop] at h
    cases h
  | some top => exact ⟨top.1, top.2, rfl⟩

theorem size_turn_lt (h : s.1.isDue now = true) : (turn s).1.size < s.1.size := by
  obtain ⟨e, heap, hpop⟩ := exists_pop?_of_isDue h
  simp only [turn, hpop]
  exact MaxHeap.size_of_pop? hpop

/-- Takes out one task after the other while the nearest deadline has come. -/
def expireFrom (now : UInt64) (s : TimeoutQueue τ × List τ) : TimeoutQueue τ × List τ :=
  if s.1.isDue now then expireFrom now (turn s) else s
termination_by s.1.size
decreasing_by exact size_turn_lt ‹_›

/-- Takes out the tasks that are due at `now`, in the order in which they expire. -/
def expire (q : TimeoutQueue τ) (now : UInt64) : TimeoutQueue τ × List τ := expireFrom now (q, [])

theorem perm_turn (s : TimeoutQueue τ × List τ) :
    ((turn s).2 ++ (turn s).1.tasks).Perm (s.2 ++ s.1.tasks) := by
  unfold turn
  split
  · rename_i e heap hpop
    have hperm := (MaxHeap.perm_of_pop? hpop).map (·.val.task)
    rw [List.append_assoc]
    exact hperm.append_left s.2
  · exact .refl _

theorem nextSeq_turn (s : TimeoutQueue τ × List τ) : (turn s).1.nextSeq = s.1.nextSeq := by
  unfold turn
  split <;> rfl

theorem perm_expireFrom (now : UInt64) (s : TimeoutQueue τ × List τ) :
    ((expireFrom now s).2 ++ (expireFrom now s).1.tasks).Perm (s.2 ++ s.1.tasks) := by
  induction s using expireFrom.induct now with
  | case1 s hdue ih =>
    rw [expireFrom, if_pos hdue]
    exact ih.trans (perm_turn s)
  | case2 s hdue =>
    rw [expireFrom, if_neg hdue]

/-- No task is lost: each is taken out or left. -/
theorem perm_expire (q : TimeoutQueue τ) (now : UInt64) :
    ((q.expire now).2 ++ (q.expire now).1.tasks).Perm q.tasks :=
  perm_expireFrom now (q, [])

theorem nextSeq_expire (q : TimeoutQueue τ) (now : UInt64) :
    (q.expire now).1.nextSeq = q.nextSeq := by
  have hfrom (s : TimeoutQueue τ × List τ) : (expireFrom now s).1.nextSeq = s.1.nextSeq := by
    induction s using expireFrom.induct now with
    | case1 s hdue ih =>
      rw [expireFrom, if_pos hdue, ih, nextSeq_turn]
    | case2 s hdue =>
      rw [expireFrom, if_neg hdue]
  exact hfrom (q, [])

end TimeoutQueue

end Admission
