import Admission.Deadline.TimeoutQueue
import Admission.Proofs.Deadline.Order
import Mathlib.Algebra.Group.Nat.Defs

/-!
# Heaps of timeouts refine deadline queues

A queue of timeouts and a deadline queue that hold the same tasks answer alike. The number of a task
in the heap is the number of tasks that were added before it, as long as the numbers do not go
around. So of two entries in the heap one comes strictly before the other, and what the heap hands
out first is the head of the list. A turn of the loop is then a step along the list, and the loop
stops where the first task is that is not due.

## Main definitions

* `TimeoutQueue.after`: the queue after a history
* `TimeoutQueue.Holds`: the heap holds given tasks, each under its number
* `TimeoutQueue.Refines`: a queue of timeouts and a deadline queue hold the same tasks
* `TimeoutQueue.Loops`: the loop goes round while the nearest deadline has come, and then stops

## Main results

* `TimeoutQueue.Holds.exists_pop?`: the task that expires first is taken out first
* `TimeoutQueue.Holds.expireFrom_eq`: the loop goes along the list
* `TimeoutQueue.holds_after`: after fewer pushes than there are words the heap holds what waits
* `TimeoutQueue.Refines.expire`, `TimeoutQueue.Refines.nextDeadline_eq`: related queues answer alike
* `TimeoutQueue.refines_after`: after fewer pushes than there are words the queues are related
* `TimeoutQueue.expires_in_order`: what expires, what stays, and what the queue tells meanwhile
-/

namespace Admission

variable {τ : Type}

namespace QueueEntry

variable {e f : QueueEntry τ}

theorem compare_eq_lt_iff :
    compare e f = .lt ↔ e.deadline < f.deadline ∨ e.deadline = f.deadline ∧ e.seq < f.seq := by
  show (compare e.deadline f.deadline).then (compare e.seq f.seq) = .lt ↔ _
  rw [Ordering.then_eq_lt, Std.compare_eq_lt, Std.compare_eq_iff_eq, Std.compare_eq_lt]

end QueueEntry

namespace Pushed

variable {p f : Pushed τ}

/-- The entry of a task in a heap, with the word for its number. -/
def entry (p : Pushed τ) : Reversed (QueueEntry τ) :=
  ⟨⟨p.deadline, UInt64.ofNat p.number, p.task⟩⟩

/-- What expires first is greater in the heap. -/
theorem not_isLE_of_before (h : p.Before f) (hf : f.number < 2 ^ 64) :
    ¬ (compare p.entry f.entry).isLE := by
  have hlt : compare p.entry.val f.entry.val = .lt := by
    refine QueueEntry.compare_eq_lt_iff.mpr (h.imp_right fun ⟨hdeadline, hnumber⟩ =>
      ⟨hdeadline, ?_⟩)
    show UInt64.ofNat p.number < UInt64.ofNat f.number
    rw [UInt64.lt_iff_toNat_lt, UInt64.toNat_ofNat', UInt64.toNat_ofNat', Nat.mod_eq_of_lt hf,
      Nat.mod_eq_of_lt (Nat.lt_trans hnumber hf)]
    exact hnumber
  have hgt : compare p.entry f.entry = .gt := Std.OrientedCmp.gt_iff_lt.mpr hlt
  rw [hgt]
  exact Bool.false_ne_true

end Pushed

namespace TimeoutQueue

/-- The queue after an operation. -/
def serve (q : TimeoutQueue τ) : QueueOp τ → TimeoutQueue τ
  | .push task deadline => q.push task deadline
  | .expire now => (q.expire now).1
  | .clear => q.clear

/-- The queue after a history, the earliest operation first. -/
def after (ops : List (QueueOp τ)) : TimeoutQueue τ := ops.foldl serve empty

/-! ## What the heap holds -/

/-- The heap holds the given tasks, each under its number, and has not used the next number yet. -/
structure Holds (q : TimeoutQueue τ) (ps : List (Pushed τ)) : Prop where
  perm : q.heap.items.Perm (ps.map Pushed.entry)
  number_lt : ∀ p ∈ ps, p.number < q.nextSeq.toNat

section Holds

variable {q : TimeoutQueue τ} {d : DeadlineQueue τ} {ps qs l : List (Pushed τ)} {p : Pushed τ}
  {now : UInt64} {task : τ} {deadline : UInt64}

theorem holds_empty : (empty : TimeoutQueue τ).Holds [] where
  perm := .refl _
  number_lt _ hp := nomatch hp

theorem Holds.of_perm (h : q.Holds ps) (hperm : ps.Perm qs) : q.Holds qs where
  perm := h.perm.trans (hperm.map Pushed.entry)
  number_lt p hp := h.number_lt p (hperm.mem_iff.mpr hp)

theorem Holds.clear (_ : q.Holds ps) : q.clear.Holds [] where
  perm := .refl _
  number_lt _ hp := nomatch hp

/-- A task that is added gets the next number. -/
theorem Holds.push (h : q.Holds ps) (hnext : q.nextSeq.toNat + 1 < 2 ^ 64) :
    (q.push task deadline).Holds (ps ++ [⟨q.nextSeq.toNat, deadline, task⟩]) := by
  have hentry : (⟨q.nextSeq.toNat, deadline, task⟩ : Pushed τ).entry =
      ⟨⟨deadline, q.nextSeq, task⟩⟩ := by
    rw [Pushed.entry, UInt64.ofNat_toNat]
  have hone : (q.nextSeq + 1).toNat = q.nextSeq.toNat + 1 := by
    rw [UInt64.toNat_add]
    exact Nat.mod_eq_of_lt hnext
  refine ⟨?_, fun p hp => ?_⟩
  · rw [List.map_append, List.map_singleton, hentry]
    exact (h.perm.cons _).trans (List.perm_append_singleton _ _).symm
  · show p.number < (q.nextSeq + 1).toNat
    rw [hone]
    rcases List.mem_append.mp hp with hp | hp
    · exact Nat.lt_succ_of_lt (h.number_lt p hp)
    · obtain rfl := List.mem_singleton.mp hp
      exact Nat.lt_succ_self _

theorem Holds.size_eq (h : q.Holds ps) : q.size = ps.length := by
  rw [size, MaxHeap.size, h.perm.length_eq, List.length_map]

theorem Holds.isEmpty_iff (h : q.Holds ps) : q.isEmpty = true ↔ ps = [] := by
  rw [isEmpty, MaxHeap.isEmpty, List.isEmpty_iff_length_eq_zero, h.perm.length_eq, List.length_map,
    List.length_eq_zero_iff]

/-- **The task that expires first is taken out first**: no other entry of the heap is as great. -/
theorem Holds.exists_pop? (h : q.Holds (p :: l)) (hp : ∀ f ∈ l, p.Before f) :
    ∃ heap, q.heap.pop? = some (p.entry, heap) ∧ Holds { q with heap } l := by
  have hmem : p.entry ∈ q.heap.items := h.perm.mem_iff.mpr List.mem_cons_self
  cases hpop : q.heap.pop? with
  | none =>
    rw [MaxHeap.pop?_eq_none_iff.mp hpop] at hmem
    cases hmem
  | some popped =>
    obtain ⟨top, heap⟩ := popped
    have hperm := (MaxHeap.perm_of_pop? hpop).trans h.perm
    have htop : top = p.entry := by
      obtain ⟨f, hf, rfl⟩ := List.mem_map.mp (hperm.mem_iff.mp List.mem_cons_self)
      rcases List.mem_cons.mp hf with rfl | hlater
      · rfl
      · have hf := Nat.lt_trans (h.number_lt f hf) q.nextSeq.toNat_lt
        exact absurd (MaxHeap.isLE_of_pop? hpop _ hmem) (Pushed.not_isLE_of_before (hp f hlater) hf)
    subst htop
    exact ⟨heap, rfl, hperm.cons_inv, fun f hf => h.number_lt f (List.mem_cons_of_mem p hf)⟩

/-- The nearest deadline is that of the task that expires first. -/
theorem Holds.nextDeadline_eq (h : q.Holds l) (hl : l.Pairwise Pushed.Before) :
    q.nextDeadline = l.head?.map (·.deadline) := by
  rw [nextDeadline, MaxHeap.peek?_eq]
  cases l with
  | nil =>
    rw [MaxHeap.pop?_eq_none_iff.mpr h.perm.eq_nil]
    rfl
  | cons p l =>
    obtain ⟨heap, hpop, -⟩ := h.exists_pop? (List.pairwise_cons.mp hl).1
    rw [hpop]
    rfl

theorem Holds.isDue_nil (h : q.Holds []) : q.isDue now = false := by
  rw [isDue, h.nextDeadline_eq .nil]
  rfl

theorem Holds.isDue_cons_iff (h : q.Holds (p :: l)) (hl : (p :: l).Pairwise Pushed.Before) :
    q.isDue now = true ↔ p.deadline ≤ now := by
  rw [isDue, h.nextDeadline_eq hl]
  exact decide_eq_true_iff

/-- **The loop goes along the list** and stops before the first task that is not due. -/
theorem Holds.expireFrom_eq (h : q.Holds l) (hl : l.Pairwise Pushed.Before) (now : UInt64)
    (out : List τ) :
    (expireFrom now (q, out)).2 = out ++ (l.takeWhile (·.deadline ≤ now)).map (·.task) ∧
      (expireFrom now (q, out)).1.Holds (l.dropWhile (·.deadline ≤ now)) := by
  induction l generalizing q out with
  | nil =>
    rw [expireFrom, if_neg (ne_true_of_eq_false h.isDue_nil)]
    exact ⟨(List.append_nil out).symm, h⟩
  | cons p l ih =>
    obtain ⟨hp, hrest⟩ := List.pairwise_cons.mp hl
    by_cases hnow : p.deadline ≤ now
    · obtain ⟨heap, hpop, hheap⟩ := h.exists_pop? hp
      have hturn : turn (q, out) = ({ q with heap }, out ++ [p.task]) := by
        rw [turn, hpop]
        rfl
      obtain ⟨hout, hleft⟩ := ih hheap hrest (out ++ [p.task])
      rw [expireFrom, if_pos ((h.isDue_cons_iff hl).mpr hnow), hturn, List.takeWhile_cons,
        List.dropWhile_cons, if_pos (decide_eq_true hnow), if_pos (decide_eq_true hnow)]
      exact ⟨by rw [hout, List.append_assoc]; rfl, hleft⟩
    · rw [expireFrom, if_neg fun hdue => hnow ((h.isDue_cons_iff hl).mp hdue), List.takeWhile_cons,
        List.dropWhile_cons, if_neg (by simpa using hnow), if_neg (by simpa using hnow)]
      exact ⟨(List.append_nil out).symm, h⟩

end Holds

/-! ## The two queues -/

/-- A queue of timeouts and a deadline queue hold the same tasks, and the one that expires first in
the heap is the head of the list. -/
def Refines (q : TimeoutQueue τ) (d : DeadlineQueue τ) : Prop := ∃ ps, q.Holds ps ∧ d.Lists ps

section Refines

variable {q : TimeoutQueue τ} {d : DeadlineQueue τ} {ps : List (Pushed τ)}

/-- What is due goes out of both in the same order, and the heap keeps what is not. -/
theorem Holds.expire (hq : q.Holds ps) (hd : d.Lists ps) (now : UInt64) :
    (q.expire now).2 = (d.expire now).2 ∧
      (q.expire now).1.Holds (ps.filter (now < ·.deadline)) := by
  obtain ⟨l, hentries, hsorted, hperm⟩ := hd
  obtain ⟨hout, hleft⟩ := (hq.of_perm hperm.symm).expireFrom_eq hsorted now []
  constructor
  · rw [DeadlineQueue.expire, hentries, List.takeWhile_map, List.map_map]
    exact hout
  · rw [(Pushed.takeWhile_due hsorted now).2] at hleft
    exact hleft.of_perm (hperm.filter _)

/-- **Related queues stay so when tasks expire**, and hand out the same tasks in the same order. -/
theorem Refines.expire (h : q.Refines d) (now : UInt64) :
    (q.expire now).2 = (d.expire now).2 ∧ (q.expire now).1.Refines (d.expire now).1 := by
  obtain ⟨ps, hq, hd⟩ := h
  obtain ⟨hout, hleft⟩ := hq.expire hd now
  exact ⟨hout, _, hleft, (hd.expire now).2⟩

theorem Refines.nextDeadline_eq (h : q.Refines d) : q.nextDeadline = d.nextDeadline := by
  obtain ⟨ps, hq, l, hentries, hsorted, hperm⟩ := h
  rw [(hq.of_perm hperm.symm).nextDeadline_eq hsorted, DeadlineQueue.nextDeadline, hentries,
    List.head?_map, Option.map_map]
  rfl

theorem Refines.size_eq (h : q.Refines d) : q.size = d.size := by
  obtain ⟨ps, hq, hd⟩ := h
  rw [hq.size_eq, hd.size_eq]

end Refines

/-- **After a history the heap holds what waits**, as long as the numbers do not go around. -/
theorem holds_after (ops : List (QueueOp τ)) (hops : QueueOp.pushes ops < 2 ^ 64) :
    (after ops).Holds (QueueOp.waiting ops) ∧ (after ops).nextSeq.toNat = QueueOp.pushes ops := by
  induction ops using List.reverseRecOn with
  | nil => exact ⟨holds_empty, rfl⟩
  | append_singleton ops op ih =>
    have hcount : QueueOp.pushes (ops ++ [op]) = QueueOp.pushes ops + QueueOp.pushes [op] :=
      List.countP_append
    obtain ⟨hheld, hnext⟩ := ih (by omega)
    have hafter : after (ops ++ [op]) = (after ops).serve op := by
      rw [after, List.foldl_append]
      rfl
    rw [hafter]
    cases op with
    | push task deadline =>
      have hone : QueueOp.pushes [(QueueOp.push task deadline : QueueOp τ)] = 1 := rfl
      have hfits : (after ops).nextSeq.toNat + 1 < 2 ^ 64 := by omega
      rw [QueueOp.waiting_push, ← hnext]
      refine ⟨hheld.push hfits, ?_⟩
      show ((after ops).nextSeq + 1).toNat = _
      rw [UInt64.toNat_add, hcount, hone, ← hnext]
      exact Nat.mod_eq_of_lt hfits
    | expire now =>
      rw [QueueOp.waiting_expire]
      refine ⟨(hheld.expire (DeadlineQueue.lists_after ops) now).2, ?_⟩
      rw [hcount]
      exact (congrArg UInt64.toNat (nextSeq_expire (after ops) now)).trans hnext
    | clear =>
      rw [QueueOp.waiting_clear]
      refine ⟨hheld.clear, ?_⟩
      rw [hcount]
      exact hnext

/-- **After fewer pushes than there are words the heap and the list are related**, so they answer
alike whatever comes next. -/
theorem refines_after (ops : List (QueueOp τ)) (hops : QueueOp.pushes ops < 2 ^ 64) :
    (after ops).Refines (DeadlineQueue.after ops) :=
  ⟨_, (holds_after ops hops).1, DeadlineQueue.lists_after ops⟩

/-! ## The loop -/

/-- The loop goes round while the nearest deadline has come, and then stops. -/
inductive Loops (now : UInt64) : TimeoutQueue τ × List τ → TimeoutQueue τ × List τ → Prop where
  | done {s : TimeoutQueue τ × List τ} (h : s.1.isDue now = false) : Loops now s s
  | turn {s t : TimeoutQueue τ × List τ} (h : s.1.isDue now = true) (hrest : Loops now (turn s) t) :
      Loops now s t

/-- **The loop comes to its end**, whatever the heap holds, and there is one end that it comes
to. -/
theorem loops_iff {now : UInt64} {s t : TimeoutQueue τ × List τ} :
    Loops now s t ↔ t = expireFrom now s := by
  constructor
  · intro h
    induction h with
    | done h => rw [expireFrom, if_neg (ne_true_of_eq_false h)]
    | turn h _ ih => rw [expireFrom, if_pos h, ih]
  · rintro rfl
    induction s using expireFrom.induct now with
    | case1 s hdue ih =>
      rw [expireFrom, if_pos hdue]
      exact .turn hdue ih
    | case2 s hdue =>
      rw [expireFrom, if_neg hdue]
      exact .done (Bool.eq_false_iff.mpr hdue)

/-- **After any history, exactly the tasks that wait and are due expire**, by deadline, and those
with one deadline as they were added; all others stay in the heap. The loop that takes them out
comes to its end. Meanwhile the queue tells the least deadline of what waits, and how much that
is. -/
theorem expires_in_order (ops : List (QueueOp τ)) (hops : QueueOp.pushes ops < 2 ^ 64)
    (now : UInt64) :
    (∃ out : List (Pushed τ), ((after ops).expire now).2 = out.map (·.task) ∧
      out.Pairwise Pushed.Before ∧ out.Perm ((QueueOp.waiting ops).filter (·.deadline ≤ now))) ∧
    ((after ops).expire now).1.Holds ((QueueOp.waiting ops).filter (now < ·.deadline)) ∧
    (∀ s, Loops now (after ops, []) s ↔ s = (after ops).expire now) ∧
    (∀ d, (after ops).nextDeadline = some d ↔
      (∃ p ∈ QueueOp.waiting ops, p.deadline = d) ∧ ∀ p ∈ QueueOp.waiting ops, d ≤ p.deadline) ∧
    ((after ops).nextDeadline = none ↔ QueueOp.waiting ops = []) ∧
    (after ops).size = (QueueOp.waiting ops).length ∧
    ((after ops).isEmpty = true ↔ QueueOp.waiting ops = []) := by
  have hlists := DeadlineQueue.lists_after ops
  have hrefines := refines_after ops hops
  obtain ⟨hheld, -⟩ := holds_after ops hops
  refine ⟨?_, (hheld.expire hlists now).2, fun s => loops_iff, ?_, ?_, ?_, hheld.isEmpty_iff⟩
  · rw [(hrefines.expire now).1]
    exact (hlists.expire now).1
  · rw [hrefines.nextDeadline_eq]
    exact hlists.nextDeadline_iff
  · rw [hrefines.nextDeadline_eq]
    exact hlists.nextDeadline_eq_none_iff
  · rw [hrefines.size_eq]
    exact hlists.size_eq

/-- Of three tasks with one deadline two are added before and one after others have expired. They
are taken out in the order in which they were added. -/
theorem expires_in_order_tied :
    let ops : List (QueueOp Nat) :=
      [.push 0 20, .clear, .push 1 20, .push 2 10, .push 3 20, .expire 10, .push 4 20, .push 5 30]
    QueueOp.pushes ops < 2 ^ 64 ∧
      (∃ out : List (Pushed Nat), ((after ops).expire 20).2 = out.map (·.task) ∧
        out.Pairwise Pushed.Before ∧ out.Perm [⟨1, 20, 1⟩, ⟨3, 20, 3⟩, ⟨4, 20, 4⟩]) ∧
      ((after ops).expire 20).1.Holds [⟨5, 30, 5⟩] ∧
      (after ops).nextDeadline = some 20 ∧ (after ops).size = 4 := by
  intro ops
  have hops : QueueOp.pushes ops < 2 ^ 64 := by decide
  obtain ⟨hout, hleft, -, hnearest, -, hsize, -⟩ := expires_in_order ops hops 20
  exact ⟨hops, hout, hleft, (hnearest 20).mpr (by decide), hsize⟩

/-- A number is not used again when the queue was emptied. -/
example : ((after [.push 1 30, .clear, .push 2 30, .push 3 10]).heap.items.map (·.val.seq)) =
    [2, 1] := by
  decide

end TimeoutQueue

end Admission
