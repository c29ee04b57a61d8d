import Admission.Gate.Basic
import Mathlib.Algebra.Order.Ring.Nat
import Mathlib.Tactic.ByContra
import Mathlib.Tactic.SplitIfs

/-!
# The semaphores of a chain

A request that a chain grants takes its units from each semaphore once for every time that the
semaphore stands in the chain, and one that it refuses takes nothing, whichever component refused.
Returned units go back to each semaphore as often.

## Main definitions

* `Semaphore.Takes`: a semaphore with so many more permits taken

## Main results

* `Chain.acquire_semaphore`: a semaphore after a request
* `Chain.release_semaphore`, `Chain.releaseUnused_semaphore`: a semaphore after a return
-/

namespace Admission

namespace Semaphore

/-- The semaphore `t` is `s` with `n` more permits taken. -/
def Takes (s : Semaphore) (n : Nat) (t : Semaphore) : Prop :=
  t.maxConcurrency = s.maxConcurrency ∧ t.remaining.toNat + n = s.remaining.toNat

theorem Takes.refl (s : Semaphore) : s.Takes 0 s := ⟨rfl, rfl⟩

theorem Takes.trans {s t u : Semaphore} {n k : Nat} (h : s.Takes n t) (h' : t.Takes k u) :
    s.Takes (n + k) u := by
  obtain ⟨hmax, hn⟩ := h
  obtain ⟨hmax', hk⟩ := h'
  exact ⟨hmax'.trans hmax, by omega⟩

theorem takes_of_tryAcquire {s t : Semaphore} {units : UInt64} (h : s.tryAcquire units = some t) :
    s.Takes units.toNat t := by
  unfold tryAcquire at h
  split_ifs at h with hle
  cases h
  refine ⟨rfl, ?_⟩
  have hsub := UInt64.toNat_sub_of_le _ _ hle
  rw [UInt64.le_iff_toNat_le] at hle
  dsimp only
  omega

/-- A return that fits gives back what was taken. -/
theorem takes_release {t : Semaphore} {units : UInt64}
    (h : t.remaining.toNat + units.toNat < 2 ^ 64) : (t.release units).Takes units.toNat t := by
  refine ⟨rfl, ?_⟩
  rw [release, UInt64.toNat_add, Nat.mod_eq_of_lt h]

end Semaphore

namespace Chain

variable {O : Type} [Outcome O] {units now : UInt64} {gates : Array Gate} {c i : Nat}
    {name : String}
  {reason : Rejection} {s : Semaphore}

/-! ## One component -/

theorem getElem?_stepGate_of_ne {α β : Type} {default : α} {f : Gate → α × Gate × List β}
    (h : c ≠ i) : (stepGate gates c default f).2.1[i]? = gates[i]? :=
  (getElem?_stepGate gates c default f i).trans (if_neg h)

theorem getElem?_stepGate_self {α β : Type} {default : α} {f : Gate → α × Gate × List β} {g : Gate}
    (h : gates[i]? = some g) : (stepGate gates i default f).2.1[i]? = some (f g).2.1 := by
  rw [getElem?_stepGate, if_pos rfl, h]
  rfl

omit [Outcome O] in
/-- A semaphore grants what it has, and is as it was after a refusal. -/
theorem stepGate_semaphore (units now : UInt64) (h : gates[i]? = some (.semaphore name reason s)) :
    (stepGate gates i none (Gate.acquire (O := O) units now)).1 =
        (if units ≤ s.remaining then none else some reason) ∧
      (stepGate gates i none (Gate.acquire (O := O) units now)).2.1[i]? =
        some (.semaphore name reason ((s.tryAcquire units).getD s)) := by
  rw [getElem?_stepGate_self h, stepGate, h]
  dsimp only
  rw [Gate.acquire, Semaphore.tryAcquire]
  split_ifs
  · exact ⟨rfl, rfl⟩
  · exact ⟨rfl, rfl⟩

/-! ## All components -/

/-- What a request does to a semaphore: nothing if the chain refuses it, and otherwise it takes the
units as often as the semaphore stands in the chain. -/
theorem acquire_semaphore (units now : UInt64) (chain : List Nat)
    (h : gates[i]? = some (.semaphore name reason s)) :
    match Chain.acquire (O := O) (R := Rejection) units now chain gates with
    | (some _, after, _) => after[i]? = some (.semaphore name reason s)
    | (none, after, _) => ∃ t, after[i]? = some (.semaphore name reason t) ∧
        s.Takes (chain.count i * units.toNat) t := by
  -- The gates change along the chain, so they are general in the induction.
  induction chain generalizing gates s with
  | nil =>
    refine ⟨s, h, ?_⟩
    rw [List.count_nil, Nat.zero_mul]
    exact .refl s
  | cons c rest ih =>
    rw [Chain.acquire]
    -- What the first component answers decides whether the rest is asked.
    generalize hasked :
      @Backpressure.acquire Nat (Array Gate) O Rejection _ _ c units now gates = asked
    change stepGate gates c none (Gate.acquire (O := O) units now) = asked at hasked
    by_cases hc : c = i
    · subst hc
      obtain ⟨hanswer, hmid⟩ := stepGate_semaphore (O := O) units now h
      rw [hasked] at hanswer hmid
      obtain ⟨_ | r, mid, notes⟩ := asked
      · have hle : units ≤ s.remaining := by
          by_contra hgt
          rw [if_neg hgt] at hanswer
          cases hanswer
        have htry : s.tryAcquire units = some { s with remaining := s.remaining - units } :=
          if_pos hle
        rw [htry] at hmid
        have hrest := ih hmid
        dsimp only at hrest ⊢
        generalize Chain.acquire (O := O) (R := Rejection) units now rest mid = answer at hrest ⊢
        obtain ⟨_ | refusal, after, more⟩ := answer
        · obtain ⟨u, hu, htakes⟩ := hrest
          refine ⟨u, hu, ?_⟩
          rw [List.count_cons_self, Nat.succ_mul, Nat.add_comm]
          exact (Semaphore.takes_of_tryAcquire htry).trans htakes
        · -- Some component further on refused: the units that were taken here go back.
          have hundone : (stepGate after c () fun g =>
              ((), g.releaseUnused (O := O) units now)).2.1[c]? = _ := getElem?_stepGate_self hrest
          refine hundone.trans ?_
          dsimp only [Option.getD_some, Gate.releaseUnused]
          rw [Semaphore.release_of_tryAcquire htry]
      -- The semaphore itself refused, and was left as it was.
      · have hgt : ¬ units ≤ s.remaining := by
          intro hle
          rw [if_pos hle] at hanswer
          cases hanswer
        rwa [Semaphore.tryAcquire, if_neg hgt] at hmid
    · have hstep : (stepGate gates c none (Gate.acquire (O := O) units now)).2.1[i]? = gates[i]? :=
        getElem?_stepGate_of_ne hc
      rw [hasked] at hstep
      rw [List.count_cons_of_ne hc]
      obtain ⟨_ | r, mid, notes⟩ := asked
      · have hrest := ih (hstep.trans h)
        dsimp only at hrest ⊢
        generalize Chain.acquire (O := O) (R := Rejection) units now rest mid = answer at hrest ⊢
        obtain ⟨_ | refusal, after, more⟩ := answer
        · exact hrest
        · exact (getElem?_stepGate_of_ne hc).trans hrest
      · exact hstep.trans h

/-- Units that are returned with an outcome go back to a semaphore as often as it stands in the
chain. -/
theorem release_semaphore {units : UInt64} (outcome : O) (now : UInt64)
    (results : Array (RollingCounts O)) (chain : List Nat)
    (h : gates[i]? = some (.semaphore name reason s))
    (hfit : s.remaining.toNat + chain.count i * units.toNat < 2 ^ 64) :
    ∃ t, (Chain.release (R := Rejection) units outcome now results chain gates).1[i]? =
        some (.semaphore name reason t) ∧
      t.Takes (chain.count i * units.toNat) s := by
  induction chain generalizing gates s with
  | nil =>
    refine ⟨s, h, ?_⟩
    rw [List.count_nil, Nat.zero_mul]
    exact .refl s
  | cons c rest ih =>
    by_cases hc : c = i
    · subst hc
      rw [List.count_cons_self, Nat.succ_mul] at hfit ⊢
      -- Here the units come back first, and the rest of the chain gives back to what that leaves.
      have hgive : (s.release units).Takes units.toNat s := Semaphore.takes_release (by omega)
      have hsum := hgive.2
      have hgot : (stepGate gates c () fun g =>
          ((), g.release units outcome now results)).2.1[c]? =
          some (.semaphore name reason (s.release units)) := getElem?_stepGate_self h
      obtain ⟨t, ht, htakes⟩ := ih hgot (by omega)
      exact ⟨t, ht, htakes.trans hgive⟩
    · rw [List.count_cons_of_ne hc] at hfit ⊢
      exact ih ((getElem?_stepGate_of_ne hc).trans h) hfit

/-- The same for unused units. -/
theorem releaseUnused_semaphore {units : UInt64} (now : UInt64) (chain : List Nat)
    (h : gates[i]? = some (.semaphore name reason s))
    (hfit : s.remaining.toNat + chain.count i * units.toNat < 2 ^ 64) :
    ∃ t, (Chain.releaseUnused (O := O) (R := Rejection) units now chain gates).1[i]? =
        some (.semaphore name reason t) ∧
      t.Takes (chain.count i * units.toNat) s := by
  induction chain with
  | nil =>
    refine ⟨s, h, ?_⟩
    rw [List.count_nil, Nat.zero_mul]
    exact .refl s
  | cons c rest ih =>
    by_cases hc : c = i
    · subst hc
      rw [List.count_cons_self, Nat.succ_mul] at hfit ⊢
      -- Unused units go back along the chain from its end, so the rest has given back already.
      obtain ⟨t, ht, htakes⟩ := ih (by omega)
      have hsum := htakes.2
      have hgive : (t.release units).Takes units.toNat t := Semaphore.takes_release (by omega)
      refine ⟨_, getElem?_stepGate_self ht, ?_⟩
      rw [Nat.add_comm]
      exact hgive.trans htakes
    · rw [List.count_cons_of_ne hc] at hfit ⊢
      obtain ⟨t, ht, htakes⟩ := ih hfit
      exact ⟨t, (getElem?_stepGate_of_ne hc).trans ht, htakes⟩

end Chain

end Admission
