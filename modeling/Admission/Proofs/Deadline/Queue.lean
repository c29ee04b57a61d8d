import Admission.Deadline.Queue
import Admission.Word
import Mathlib.Data.List.TakeWhile

/-!
# The order of deadline queues

A deadline queue is kept in the order in which it hands out its tasks: by deadline, and for one
deadline as they came. A task that is added comes behind all that are due no later, so any relation
of this kind between the entries is kept if the new entry comes after those.

## Main results

* `insert_perm`, `exists_insert`, `pairwise_insert`: a task that is added, and the order
* `entries_expire`, `mem_expire`, `lt_of_mem_expire`: what is taken out, and what is left
-/

namespace Admission

namespace DeadlineQueue

variable {τ : Type} {e : Timed τ} {now : UInt64}

theorem insert_perm (e : Timed τ) (l : List (Timed τ)) : (insert e l).Perm (e :: l) := by
  induction l with
  | nil => exact .refl _
  | cons f rest ih =>
    rw [insert]
    split
    · exact .refl _
    · exact (ih.cons f).trans (.swap e f rest)

/-- A task takes its place among others, in any order in which it may stand before all that are due
later, and behind all the others. -/
theorem exists_insert {α : Type} (entry : α → Timed τ) {R : α → α → Prop} {a : α} {l : List α}
    (hsorted : l.Pairwise fun b c => (entry b).deadline ≤ (entry c).deadline) (hl : l.Pairwise R)
    (hbefore : ∀ b ∈ l, (entry a).deadline < (entry b).deadline → R a b)
    (hbehind : ∀ b ∈ l, (entry b).deadline ≤ (entry a).deadline → R b a) :
    ∃ l' : List α, insert (entry a) (l.map entry) = l'.map entry ∧ l'.Pairwise R ∧
      l'.Perm (a :: l) := by
  induction l with
  | nil => exact ⟨[a], rfl, List.pairwise_singleton R a, .refl _⟩
  | cons b rest ih =>
    obtain ⟨hb, hrest⟩ := List.pairwise_cons.mp hl
    obtain ⟨hle, hsorted⟩ := List.pairwise_cons.mp hsorted
    obtain ⟨hbefore, hbefores⟩ := List.forall_mem_cons.mp hbefore
    obtain ⟨hbehind, hbehinds⟩ := List.forall_mem_cons.mp hbehind
    rw [List.map_cons, insert]
    split
    · rename_i hlt
      have hlater : ∀ c ∈ rest, R a c := fun c hc =>
        hbefores c hc (UInt64.lt_of_lt_of_le hlt (hle c hc))
      exact ⟨a :: b :: rest, rfl,
        List.pairwise_cons.mpr ⟨List.forall_mem_cons.mpr ⟨hbefore hlt, hlater⟩, hl⟩, .refl _⟩
    · rename_i hge
      obtain ⟨l', hl', hordered, hperm⟩ := ih hsorted hrest hbefores hbehinds
      refine ⟨b :: l', congrArg (entry b :: ·) hl',
        List.pairwise_cons.mpr ⟨fun c hc => ?_, hordered⟩, (hperm.cons b).trans (.swap a b rest)⟩
      rcases List.mem_cons.mp (hperm.mem_iff.mp hc) with rfl | hc
      · exact hbehind (UInt64.not_lt.mp hge)
      · exact hb c hc

/-- The order is kept if the new entry may stand before all that are due later, and behind all
others. -/
theorem pairwise_insert {R : Timed τ → Timed τ → Prop} {l : List (Timed τ)}
    (hsorted : l.Pairwise (·.deadline ≤ ·.deadline)) (hl : l.Pairwise R)
    (hbefore : ∀ f ∈ l, e.deadline < f.deadline → R e f)
    (hbehind : ∀ f ∈ l, f.deadline ≤ e.deadline → R f e) : (insert e l).Pairwise R := by
  obtain ⟨l', hl', hordered, -⟩ := exists_insert id hsorted hl hbefore hbehind
  rw [List.map_id, List.map_id] at hl'
  exact hl' ▸ hordered

/-- What is taken out stood before what is left. -/
theorem entries_expire (q : DeadlineQueue τ) (now : UInt64) :
    q.entries.map (·.task) = (q.expire now).2 ++ (q.expire now).1.entries.map (·.task) := by
  rw [expire, ← List.map_append, List.takeWhile_append_dropWhile]

theorem mem_expire {q : DeadlineQueue τ} {task : τ} (h : task ∈ (q.expire now).2) :
    ∃ e ∈ q.entries, e.task = task ∧ e.deadline ≤ now := by
  obtain ⟨e, he, rfl⟩ := List.mem_map.mp h
  have hdue := List.mem_takeWhile_imp (p := fun e : Timed τ => decide (e.deadline ≤ now)) he
  exact ⟨e, (List.takeWhile_sublist _).subset he, rfl, of_decide_eq_true hdue⟩

theorem sublist_expire (q : DeadlineQueue τ) (now : UInt64) :
    (q.expire now).1.entries.Sublist q.entries :=
  List.dropWhile_sublist _

/-- Nothing is left that is due. -/
theorem lt_of_mem_expire {q : DeadlineQueue τ} (hq : q.entries.Pairwise (·.deadline ≤ ·.deadline))
    (h : e ∈ (q.expire now).1.entries) : now < e.deadline := by
  have hrest : e ∈ q.entries.dropWhile (·.deadline ≤ now) := h
  have hsorted := hq.sublist (List.dropWhile_sublist (·.deadline ≤ now))
  cases hleft : q.entries.dropWhile (·.deadline ≤ now) with
  | nil =>
    rw [hleft] at hrest
    cases hrest
  | cons f rest =>
    rw [hleft] at hrest hsorted
    have hf : now < f.deadline := by
      have hstop :=
        List.head?_dropWhile_not (fun e : Timed τ => decide (e.deadline ≤ now)) q.entries
      rw [hleft] at hstop
      exact UInt64.not_le.mp (of_decide_eq_false hstop)
    rcases List.mem_cons.mp hrest with rfl | he
    · exact hf
    · exact UInt64.lt_of_lt_of_le hf ((List.pairwise_cons.mp hsorted).1 e he)

/-- At the end of the time line everything is due. -/
theorem entries_expire_maxWord (q : DeadlineQueue τ) : (q.expire maxWord).1.entries = [] := by
  refine List.dropWhile_eq_nil_iff.mpr fun e _ => decide_eq_true (UInt64.le_iff_toNat_le.mpr ?_)
  have hm : maxWord.toNat = 2 ^ 64 - 1 := rfl
  have hlt := e.deadline.toNat_lt
  omega

end DeadlineQueue

end Admission
