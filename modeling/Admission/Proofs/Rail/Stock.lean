import Admission.Proofs.Gate.Semaphores
import Admission.Scenario.Gates

/-!
# The books of a guard rail

For each semaphore in the chain of a guard rail there are books: the permits that remain and the
units that are held, taken as often as the semaphore stands in the chain, make up all permits. A
request that is granted puts its units on the books, one that is refused puts nothing, and a return
takes its units off. What is on the books fits when it comes back, so the count of permits never
goes around.

## Main definitions

* `Bench.Stocked`: a semaphore of a guard rail from which so many units are held

## Main results

* `Bench.Stocked.acquireFrom`: a request on the books
* `Bench.Stocked.releaseTo`, `Bench.Stocked.releaseUnused`: a return on the books
-/

namespace Admission.Scenario

variable {O : Type} [Outcome O]

/-- Under its name there is only the guard rail at place `i`, with a chain in which the gate at
place `j` is a semaphore, from which `n` units are held for every time that it stands in the
chain. -/
structure Bench.Stocked (b : Bench O) (rail : String) (i : Nat) (chain : List Nat) (j : Nat)
    (name : String) (reason : Rejection) (max : UInt64) (n : Nat) : Prop where
  found : ∀ k, (b.find rail fun | .rail i => some i | _ => none) = .ok k → k = i
  placed : ∃ r, b.rails[i]? = some r ∧ r.rail.chain = chain
  stock : ∃ s, b.plant.components[j]? = some (.semaphore name reason s) ∧ s.maxConcurrency = max ∧
    s.remaining.toNat + chain.count j * n = max.toNat

namespace Bench.Stocked

variable {b c : Bench O} {rail : String} {i : Nat} {chain : List Nat} {j : Nat} {name : String}
  {reason : Rejection} {max : UInt64} {n : Nat}

/-- The books are about names, guard rails and gates. -/
theorem congr (h : b.Stocked rail i chain j name reason max n) (hnames : c.names = b.names)
    (hrails : c.rails = b.rails) (hgates : c.plant.components = b.plant.components) :
    c.Stocked rail i chain j name reason max n := by
  obtain ⟨hfound, hplaced, hstock⟩ := h
  refine ⟨?_, hrails ▸ hplaced, hgates ▸ hstock⟩
  intro k hk
  rw [Bench.find, Bench.lookup, hnames] at hk
  exact hfound k hk

/-- A name that is given to an object of another kind does not lead to another guard rail. -/
theorem bind (h : b.Stocked rail i chain j name reason max n) {id : String} {handle : Handle}
    (hkind : ∀ k, handle ≠ .rail k) :
    (b.bind id handle).Stocked rail i chain j name reason max n := by
  obtain ⟨hfound, hplaced, hstock⟩ := h
  refine ⟨?_, hplaced, hstock⟩
  intro k hk
  by_cases hid : rail = id
  · subst hid
    rw [Bench.find, Bench.lookup_bind_self] at hk
    cases handle with
    | rail l => exact absurd rfl (hkind l)
    | _ => cases hk
  · rw [Bench.find, Bench.lookup_bind_of_ne b handle hid] at hk
    exact hfound k hk

/-- A request that is granted puts its units on the books, and one that is refused puts nothing. -/
theorem acquireFrom (h : b.Stocked rail i chain j name reason max n) (units now : UInt64) :
    match b.acquireFrom i units now with
    | (none, after) => after.Stocked rail i chain j name reason max (n + units.toNat)
    | (some _, after) => after.Stocked rail i chain j name reason max n := by
  obtain ⟨hfound, ⟨r, hr, hchain⟩, s, hs, hmax, hsum⟩ := h
  have hi : i < b.rails.size := (Array.getElem?_eq_some_iff.mp hr).1
  have hgate := Chain.acquire_semaphore (O := O) units now chain hs
  obtain ⟨hanswer, hcomponents⟩ := r.rail.acquire_components units now b.plant
  rw [hchain] at hanswer hcomponents
  rw [Bench.acquireFrom, hr]
  dsimp only
  -- The guard rail counts the refusal, if it is one, and keeps its chain.
  have hplaced : ∃ q : PlacedRail O, (b.rails.setIfInBounds i
      { r with rail := (r.rail.acquire units now b.plant).2.1 })[i]? = some q ∧
      q.rail.chain = chain :=
    ⟨_, Array.getElem?_setIfInBounds_self_of_lt hi, GuardRail.chain_acquire.trans hchain⟩
  generalize Chain.acquire (O := O) (R := Rejection) units now chain b.plant.components = asked at *
  generalize r.rail.acquire units now b.plant = answer at *
  obtain ⟨_ | refusal, after, notes⟩ := asked
  -- The chain and the guard rail answer alike, which leaves two of the four cases.
  · obtain ⟨_ | _, rail', plant⟩ := answer
    · obtain ⟨t, ht, hmax', htakes⟩ := hgate
      refine ⟨hfound, hplaced, t, ?_, hmax'.trans hmax, ?_⟩
      · exact (congrArg (·[j]?) hcomponents).trans ht
      · rw [Nat.mul_add]
        omega
    · cases hanswer
  · obtain ⟨_ | _, rail', plant⟩ := answer
    · cases hanswer
    · exact ⟨hfound, hplaced, s, (congrArg (·[j]?) hcomponents).trans hgate, hmax, hsum⟩

/-- What is on the books fits when it comes back. -/
theorem fits {s : Semaphore} {k m : Nat}
    (hsum : s.remaining.toNat + chain.count j * (k + m) = max.toNat) :
    s.remaining.toNat + chain.count j * m < 2 ^ 64 := by
  have hlt := max.toNat_lt
  rw [Nat.mul_add] at hsum
  omega

/-- Units that come back with an outcome are taken off the books. -/
theorem releaseTo {units : UInt64}
    (h : b.Stocked rail i chain j name reason max (n + units.toNat)) (outcome : O)
    (start now : UInt64) :
    (b.releaseTo i units outcome start now).Stocked rail i chain j name reason max n := by
  obtain ⟨hfound, ⟨r, hr, hchain⟩, s, hs, hmax, hsum⟩ := h
  have hi : i < b.rails.size := (Array.getElem?_eq_some_iff.mp hr).1
  obtain ⟨t, ht, hmax', htakes⟩ := Chain.release_semaphore outcome now
    (r.rail.recordResult units outcome start now b.plant).results chain hs (fits hsum)
  rw [Bench.releaseTo, hr]
  refine ⟨hfound, ⟨_, Array.getElem?_setIfInBounds_self_of_lt hi, hchain⟩, t, ?_,
    hmax'.symm.trans hmax, ?_⟩
  · dsimp only
    rw [GuardRail.components_release, hchain]
    exact ht
  · rw [Nat.mul_add] at hsum
    omega

/-- So are unused units. -/
theorem releaseUnused {units : UInt64}
    (h : b.Stocked rail i chain j name reason max (n + units.toNat)) (now : UInt64)
    {r : PlacedRail O} (hr : b.rails[i]? = some r) :
    ({ b with plant := r.rail.releaseUnused units now b.plant } : Bench O).Stocked
      rail i chain j name reason max n := by
  obtain ⟨hfound, ⟨q, hq, hchain⟩, s, hs, hmax, hsum⟩ := h
  obtain rfl : q = r := Option.some.inj (hq.symm.trans hr)
  obtain ⟨t, ht, hmax', htakes⟩ := Chain.releaseUnused_semaphore (O := O) now chain hs
    (fits hsum)
  refine ⟨hfound, ⟨q, hq, hchain⟩, t, ?_, hmax'.symm.trans hmax, ?_⟩
  · dsimp only
    rw [GuardRail.components_releaseUnused, hchain]
    exact ht
  · rw [Nat.mul_add] at hsum
    omega

end Bench.Stocked

end Admission.Scenario
