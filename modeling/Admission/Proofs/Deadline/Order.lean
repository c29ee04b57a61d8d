import Admission.Proofs.Deadline.Queue
import Mathlib.Data.List.Induction

/-!
# What waits in a queue

A deadline queue takes tasks in any order, and hands out those that are due at one time or another,
whatever that time is. A task waits from when it is added until the queue is emptied, or until it is
due when tasks are taken out. So what waits can be read off the history alone, and it is handed out
by deadline, and for one deadline as it was added.

## Main definitions

* `QueueOp`, `DeadlineQueue.after`: what is done to a queue, and the queue after a history
* `Pushed`, `QueueOp.waiting`: the tasks that were added and have neither expired nor been dropped
* `Pushed.Before`: by deadline, and then as they were added
* `DeadlineQueue.Lists`: the entries of the queue are given tasks, in the order in which they expire

## Main results

* `DeadlineQueue.Lists.push`, `DeadlineQueue.Lists.expire`: what is listed after an operation
* `DeadlineQueue.lists_after`: the queue is a list of what waits
-/

namespace Admission

variable {τ : Type}

/-! ## Histories -/

/-- What is done to a deadline queue. -/
inductive QueueOp (τ : Type) where
  | push (task : τ) (deadline : UInt64)
  | expire (now : UInt64)
  | clear
deriving DecidableEq, Repr

/-- A task that was added. -/
structure Pushed (τ : Type) where
  /-- How many tasks were added before. -/
  number : Nat
  deadline : UInt64
  task : τ
deriving DecidableEq, Repr

/-- The order in which tasks expire: by deadline, and those with one deadline as they were added. -/
def Pushed.Before (p q : Pushed τ) : Prop :=
  p.deadline < q.deadline ∨ p.deadline = q.deadline ∧ p.number < q.number

/-- The task as an entry of a queue. -/
def Pushed.timed (p : Pushed τ) : Timed τ := ⟨p.deadline, p.task⟩

namespace QueueOp

/-- Whether a task with the given deadline is left where it is. -/
def spares (deadline : UInt64) : QueueOp τ → Bool
  | push _ _ => true
  | expire now => now < deadline
  | clear => false

/-- The tasks of a history that are still there, as they were added, when `made` were added before
it. -/
def waitingFrom (made : Nat) : List (QueueOp τ) → List (Pushed τ)
  | [] => []
  | push task deadline :: ops =>
    if ops.all (spares deadline) then ⟨made, deadline, task⟩ :: waitingFrom (made + 1) ops
    else waitingFrom (made + 1) ops
  | expire _ :: ops => waitingFrom made ops
  | clear :: ops => waitingFrom made ops

/-- The tasks that were added and have been taken out by nothing since, as they were added. -/
def waiting (ops : List (QueueOp τ)) : List (Pushed τ) := waitingFrom 0 ops

/-- How many tasks a history adds. -/
def pushes (ops : List (QueueOp τ)) : Nat :=
  ops.countP fun
    | push _ _ => true
    | _ => false

/-- What an operation leaves of the tasks that wait. -/
theorem waitingFrom_snoc (made : Nat) (ops : List (QueueOp τ)) (op : QueueOp τ) :
    waitingFrom made (ops ++ [op]) =
      (waitingFrom made ops).filter (fun p => op.spares p.deadline) ++
        waitingFrom (made + pushes ops) [op] := by
  induction ops generalizing made with
  | nil => rfl
  | cons o ops ih =>
    cases o with
    | push task deadline =>
      have hcount : made + pushes (push task deadline :: ops) = made + 1 + pushes ops := by
        simp [pushes, Nat.add_assoc, Nat.add_comm]
      rw [List.cons_append, waitingFrom, waitingFrom, ih, hcount, List.all_append, List.all_cons,
        List.all_nil, Bool.and_true]
      by_cases hstays : ops.all (spares deadline) = true
      · by_cases hop : op.spares deadline = true
        · simp [hstays, hop]
        · simp [hstays, hop]
      · simp [hstays]
    | expire now => exact ih made
    | clear => exact ih made

theorem waiting_push (ops : List (QueueOp τ)) (task : τ) (deadline : UInt64) :
    waiting (ops ++ [push task deadline]) = waiting ops ++ [⟨pushes ops, deadline, task⟩] := by
  have hsame :
      (waitingFrom 0 ops).filter (fun p => (push task deadline : QueueOp τ).spares p.deadline) =
        waitingFrom 0 ops := List.filter_eq_self.mpr fun _ _ => rfl
  rw [waiting, waitingFrom_snoc, hsame, Nat.zero_add]
  rfl

theorem waiting_expire (ops : List (QueueOp τ)) (now : UInt64) :
    waiting (ops ++ [expire now]) = (waiting ops).filter (now < ·.deadline) := by
  rw [waiting, waitingFrom_snoc]
  exact List.append_nil _

theorem waiting_clear (ops : List (QueueOp τ)) : waiting (ops ++ [clear]) = [] := by
  rw [waiting, waitingFrom_snoc]
  exact (List.append_nil _).trans (List.filter_eq_nil_iff.mpr fun _ _ h => nomatch h)

/-- Tasks that wait are numbered by the tasks that were added before them. -/
theorem number_lt_of_mem_waiting {ops : List (QueueOp τ)} {p : Pushed τ} (h : p ∈ waiting ops) :
    p.number < pushes ops := by
  induction ops using List.reverseRecOn with
  | nil => cases h
  | append_singleton ops op ih =>
    have hcount : pushes (ops ++ [op]) = pushes ops + pushes [op] := List.countP_append
    cases op with
    | push task deadline =>
      rw [waiting_push] at h
      have hone : pushes [(push task deadline : QueueOp τ)] = 1 := rfl
      rcases List.mem_append.mp h with h | h
      · have := ih h
        omega
      · obtain rfl := List.mem_singleton.mp h
        show pushes ops < _
        omega
    | expire now =>
      rw [waiting_expire] at h
      have := ih (List.mem_filter.mp h).1
      omega
    | clear =>
      rw [waiting_clear] at h
      cases h

end QueueOp

/-- In a list where nothing comes before what has a property, unless it has it too, the first
entries that have it are all that have it. -/
theorem takeWhile_eq_filter {α : Type} {p : α → Bool} {l : List α}
    (h : l.Pairwise fun a b => p b = true → p a = true) :
    l.takeWhile p = l.filter p ∧ l.dropWhile p = l.filter fun a => !p a := by
  induction l with
  | nil => exact ⟨rfl, rfl⟩
  | cons a l ih =>
    obtain ⟨ha, hl⟩ := List.pairwise_cons.mp h
    by_cases hp : p a = true
    · obtain ⟨htake, hdrop⟩ := ih hl
      simp [hp, htake, hdrop]
    · have hnone : ∀ b ∈ l, ¬ p b = true := fun b hb hpb => hp (ha b hb hpb)
      have hall : l.filter (fun b => !p b) = l := by simpa using hnone
      simp [hp, List.filter_eq_nil_iff.mpr hnone, hall]

namespace Pushed

theorem deadline_le_of_before {p q : Pushed τ} (h : p.Before q) : p.deadline ≤ q.deadline := by
  rcases h with h | ⟨h, -⟩
  · exact UInt64.le_of_lt h
  · exact UInt64.le_of_eq h

/-- In order, the tasks that are due come first. -/
theorem takeWhile_due {l : List (Pushed τ)} (hl : l.Pairwise Before) (now : UInt64) :
    l.takeWhile (·.deadline ≤ now) = l.filter (·.deadline ≤ now) ∧
      l.dropWhile (·.deadline ≤ now) = l.filter (now < ·.deadline) := by
  have hleft : (fun p : Pushed τ => !decide (p.deadline ≤ now)) = fun p =>
      decide (now < p.deadline) := by
    funext p
    simp [← UInt64.not_le]
  rw [← hleft]
  refine takeWhile_eq_filter (hl.imp fun hbefore hdue => ?_)
  simp only [decide_eq_true_eq] at hdue ⊢
  exact UInt64.le_trans (deadline_le_of_before hbefore) hdue

end Pushed

namespace DeadlineQueue

/-- The queue after an operation. -/
def serve (q : DeadlineQueue τ) : QueueOp τ → DeadlineQueue τ
  | .push task deadline => q.push task deadline
  | .expire now => (q.expire now).1
  | .clear => empty

/-- The queue after a history, the earliest operation first. -/
def after (ops : List (QueueOp τ)) : DeadlineQueue τ := ops.foldl serve empty

/-! ## What the queue lists -/

/-- The entries of the queue are the given tasks, in the order in which they expire. -/
def Lists (q : DeadlineQueue τ) (ps : List (Pushed τ)) : Prop :=
  ∃ l : List (Pushed τ), q.entries = l.map Pushed.timed ∧ l.Pairwise Pushed.Before ∧ l.Perm ps

section Lists

variable {q : DeadlineQueue τ} {ps : List (Pushed τ)} {p : Pushed τ}

theorem lists_empty : (empty : DeadlineQueue τ).Lists [] := ⟨[], rfl, .nil, .refl _⟩

theorem Lists.push (h : q.Lists ps) (hp : ∀ f ∈ ps, f.number < p.number) :
    (q.push p.task p.deadline).Lists (ps ++ [p]) := by
  obtain ⟨l, hentries, hsorted, hperm⟩ := h
  have hbehind : ∀ f ∈ l, f.deadline ≤ p.deadline → f.Before p := fun f hf hle =>
    (UInt64.lt_or_eq_of_le hle).imp_right fun heq => ⟨heq, hp f (hperm.mem_iff.mp hf)⟩
  obtain ⟨l', hl', hsorted', hperm'⟩ := exists_insert Pushed.timed
    (hsorted.imp Pushed.deadline_le_of_before) hsorted (fun _ _ => Or.inl) hbehind
  refine ⟨l', ?_, hsorted', hperm'.trans ?_⟩
  · rw [← hl', ← hentries]
    rfl
  · exact (hperm.cons p).trans (List.perm_append_singleton p ps).symm

/-- What expires is all that is due, and what is left is all that is not, both in order. -/
theorem Lists.expire (h : q.Lists ps) (now : UInt64) :
    (∃ out : List (Pushed τ), (q.expire now).2 = out.map (·.task) ∧ out.Pairwise Pushed.Before ∧
      out.Perm (ps.filter (·.deadline ≤ now))) ∧
    (q.expire now).1.Lists (ps.filter (now < ·.deadline)) := by
  obtain ⟨l, hentries, hsorted, hperm⟩ := h
  obtain ⟨htake, hdrop⟩ := Pushed.takeWhile_due hsorted now
  refine ⟨⟨l.filter (·.deadline ≤ now), ?_, hsorted.filter _, hperm.filter _⟩,
    l.filter (now < ·.deadline), ?_, hsorted.filter _, hperm.filter _⟩
  · rw [← htake, DeadlineQueue.expire, hentries, List.takeWhile_map, List.map_map]
    rfl
  · rw [← hdrop, DeadlineQueue.expire, hentries, List.dropWhile_map]
    rfl

/-- The nearest deadline is the least one. -/
theorem Lists.nextDeadline_iff (h : q.Lists ps) (d : UInt64) :
    q.nextDeadline = some d ↔ (∃ p ∈ ps, p.deadline = d) ∧ ∀ p ∈ ps, d ≤ p.deadline := by
  obtain ⟨l, hentries, hsorted, hperm⟩ := h
  simp only [← hperm.mem_iff, nextDeadline, hentries]
  cases l with
  | nil => simp
  | cons p l =>
    have hfirst : ∀ f ∈ p :: l, p.deadline ≤ f.deadline :=
      List.forall_mem_cons.mpr ⟨UInt64.le_refl _, fun f hf =>
        Pushed.deadline_le_of_before ((List.pairwise_cons.mp hsorted).1 f hf)⟩
    show some p.deadline = some d ↔ _
    constructor
    · rintro ⟨⟩
      exact ⟨⟨p, List.mem_cons_self, rfl⟩, hfirst⟩
    · rintro ⟨⟨f, hf, rfl⟩, hleast⟩
      exact congrArg some (UInt64.le_antisymm (hfirst f hf) (hleast p List.mem_cons_self))

theorem Lists.size_eq (h : q.Lists ps) : q.size = ps.length := by
  obtain ⟨l, hentries, -, hperm⟩ := h
  rw [size, hentries, List.length_map, hperm.length_eq]

theorem Lists.nextDeadline_eq_none_iff (h : q.Lists ps) : q.nextDeadline = none ↔ ps = [] := by
  rw [nextDeadline, Option.map_eq_none_iff, List.head?_eq_none_iff, ← List.length_eq_zero_iff,
    ← List.length_eq_zero_iff, ← h.size_eq, size]

end Lists

/-- **The queue is a list of what waits**, in the order in which it expires. -/
theorem lists_after (ops : List (QueueOp τ)) : (after ops).Lists (QueueOp.waiting ops) := by
  induction ops using List.reverseRecOn with
  | nil => exact lists_empty
  | append_singleton ops op ih =>
    have hafter : after (ops ++ [op]) = (after ops).serve op := by
      rw [after, List.foldl_append]
      rfl
    rw [hafter]
    cases op with
    | push task deadline =>
      rw [QueueOp.waiting_push]
      exact ih.push (p := ⟨QueueOp.pushes ops, deadline, task⟩) fun f hf =>
        QueueOp.number_lt_of_mem_waiting hf
    | expire now =>
      rw [QueueOp.waiting_expire]
      exact (ih.expire now).2
    | clear =>
      rw [QueueOp.waiting_clear]
      exact lists_empty

end DeadlineQueue

end Admission
