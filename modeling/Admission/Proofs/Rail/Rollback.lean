import Admission.Proofs.Gate.Chain
import Admission.Proofs.Gate.Semaphores
import Admission.Rail.Basic

/-!
# Refused requests are rolled back

A refused request asks the components of its chain in order up to the one that refuses, and takes
back what the others granted in the opposite order. If each component undoes its latest grant when
the units come back at once, a refusal leaves all components as they were, however they share their
state and however often one stands in the chain. Grants nest: each is undone before any earlier one,
so the state in which it is undone is the state in which it was made.

The calls are seen by watching the components: a list of calls is kept beside their state. Watching
changes nothing else.

## Main definitions

* `Chain.Call`, `Chain.Watched`: the calls of components, and components that are watched
* `Chain.Undoes`: a component that changes nothing when it refuses and can undo its latest grant
* `Chain.undoneCalls`: the calls of a request that is refused and rolled back

## Main results

* `Chain.acquire_append_of_refused`: a refused request, in the three parts of which it consists
* `Chain.releaseUnused_of_granted`: what was just granted is undone
* `Chain.acquire_watched_of_granted`, `Chain.acquire_watched_of_refused`: watching a request changes
  nothing
* `GuardRail.acquire_rolled_back`: what a refused request calls, and what it leaves
* `Chain.semaphores_undo`: semaphores undo their grants
-/

namespace Admission

namespace Chain

variable {κ γ O R : Type}

/-! ## Watched components -/

/-- A call of a component. -/
inductive Call (κ O : Type) where
  | asked (component : κ) (units now : UInt64)
  | returned (component : κ) (units : UInt64) (outcome : O) (now : UInt64)
  /-- Units came back that were not used. -/
  | unused (component : κ) (units now : UInt64)
deriving DecidableEq, Repr

/-- Components whose calls are written down, the latest at the end. -/
structure Watched (κ γ O : Type) where
  state : γ
  calls : List (Call κ O)

variable [Outcome O] [Backpressure κ γ O R]

/-- Watched components do what they do anyway. -/
instance : Backpressure κ (Watched κ γ O) O R where
  name s c := Backpressure.name (O := O) (R := R) s.state c
  acquire c units now s :=
    let (answer, after, notes) := Backpressure.acquire c units now s.state
    (answer, ⟨after, s.calls ++ [.asked c units now]⟩, notes)
  release c units outcome now results s :=
    let (after, notes) := Backpressure.release c units outcome now results s.state
    (⟨after, s.calls ++ [.returned c units outcome now]⟩, notes)
  releaseUnused c units now s :=
    let (after, notes) := Backpressure.releaseUnused c units now s.state
    (⟨after, s.calls ++ [.unused c units now]⟩, notes)

/-- The calls of a request that `c` refuses after the components in `granted` have granted it: these
are asked before, and get their units back afterwards, the latest first. -/
def undoneCalls (granted : List κ) (c : κ) (units now : UInt64) : List (Call κ O) :=
  granted.map (.asked · units now) ++ [.asked c units now] ++
    granted.reverse.map (.unused · units now)

section Requests

variable {units now : UInt64} {granted : List κ} {c d : κ} {reason : R} {s mid refused : γ}
  {asked told : List (Note O R)}

/-- A chain grants a request if its first component does, and the others do after it. -/
theorem exists_of_acquire_cons
    (h : acquire units now (d :: granted) s = (none, mid, asked)) :
    ∃ t told more, Backpressure.acquire d units now s = (none, t, told) ∧
      acquire units now granted t = (none, mid, more) ∧ asked = told ++ more := by
  rw [acquire] at h
  rcases hfirst : Backpressure.acquire (O := O) (R := R) d units now s with ⟨_ | r, t, told⟩
  · rw [hfirst] at h
    dsimp only at h
    rcases hmore : acquire (O := O) (R := R) units now granted t with ⟨_ | refusal, u, more⟩
    · rw [hmore] at h
      cases h
      exact ⟨t, told, more, rfl, hmore, rfl⟩
    · rw [hmore] at h
      cases h
  · rw [hfirst] at h
    cases h

/-- A request that is granted as far as `c` and refused there never gets to the rest of the
chain. -/
theorem acquire_append_of_refused (hgranted : acquire units now granted s = (none, mid, asked))
    (hrefused : Backpressure.acquire c units now mid = (some reason, refused, told))
    (rest : List κ) :
    acquire units now (granted ++ c :: rest) s =
      (some (reason, c), (releaseUnused (O := O) (R := R) units now granted refused).1,
        asked ++ told ++ (releaseUnused units now granted refused).2) := by
  induction granted generalizing s asked with
  | nil =>
    cases hgranted
    rw [List.nil_append, acquire, hrefused]
    simp [releaseUnused]
  | cons d granted ih =>
    obtain ⟨t, told', more, hfirst, hmore, rfl⟩ := exists_of_acquire_cons hgranted
    rw [List.cons_append, acquire, hfirst]
    dsimp only
    -- The first component is the last to get its units back.
    rw [ih hmore]
    simp [releaseUnused]

/-- A request that all components grant, while they are watched. -/
theorem acquire_watched_of_granted (hgranted : acquire units now granted s = (none, mid, asked))
    (calls : List (Call κ O)) :
    acquire units now granted (⟨s, calls⟩ : Watched κ γ O) =
      (none, ⟨mid, calls ++ granted.map (.asked · units now)⟩, asked) := by
  induction granted generalizing s calls asked with
  | nil =>
    cases hgranted
    simp [acquire]
  | cons d granted ih =>
    obtain ⟨t, told, more, hfirst, hmore, rfl⟩ := exists_of_acquire_cons hgranted
    have hwatched : Backpressure.acquire d units now (⟨s, calls⟩ : Watched κ γ O) =
        (none, ⟨t, calls ++ [.asked d units now]⟩, told) := by
      simp [Backpressure.acquire, hfirst]
    rw [acquire, hwatched]
    dsimp only
    rw [ih hmore]
    simp

/-- The return of unused units to watched components. -/
theorem releaseUnused_watched (granted : List κ) (units now : UInt64) (s : γ)
    (calls : List (Call κ O)) :
    releaseUnused units now granted (⟨s, calls⟩ : Watched κ γ O) =
      (⟨(releaseUnused (O := O) (R := R) units now granted s).1,
        calls ++ granted.reverse.map (.unused · units now)⟩,
        (releaseUnused (O := O) (R := R) units now granted s).2) := by
  induction granted with
  | nil => simp [releaseUnused]
  | cons d granted ih =>
    rw [releaseUnused, ih]
    simp [Backpressure.releaseUnused, releaseUnused]

/-- A request that is refused, while the components are watched. -/
theorem acquire_watched_of_refused (hgranted : acquire units now granted s = (none, mid, asked))
    (hrefused : Backpressure.acquire c units now mid = (some reason, refused, told)) (rest : List κ)
    (calls : List (Call κ O)) :
    acquire units now (granted ++ c :: rest) (⟨s, calls⟩ : Watched κ γ O) =
      (some (reason, c), ⟨(releaseUnused (O := O) (R := R) units now granted refused).1,
        calls ++ undoneCalls granted c units now⟩,
        asked ++ told ++ (releaseUnused units now granted refused).2) := by
  have hlast : Backpressure.acquire c units now
      (⟨mid, calls ++ granted.map (.asked · units now)⟩ : Watched κ γ O) =
        (some reason, ⟨refused, calls ++ granted.map (.asked · units now) ++ [.asked c units now]⟩,
          told) := by
    simp [Backpressure.acquire, hrefused]
  rw [acquire_append_of_refused (acquire_watched_of_granted hgranted calls) hlast rest,
    releaseUnused_watched]
  simp [undoneCalls]

end Requests

/-! ## Undoing grants -/

/-- A component that can undo its latest grant of a request for `units` at `now`, in the states with
the property `P`: refusing changes nothing, and units that come back unused right after they were
granted restore the state before. Grants keep the property. -/
structure Undoes (O R : Type) [Outcome O] [Backpressure κ γ O R] (P : γ → Prop) (units now : UInt64)
    (c : κ) : Prop where
  refused {s t : γ} {reason : R} {notes : List (Note O R)} (hs : P s)
    (h : Backpressure.acquire c units now s = (some reason, t, notes)) : t = s
  granted {s t : γ} {notes : List (Note O R)} (hs : P s)
    (h : Backpressure.acquire c units now s = (none, t, notes)) : P t
  /-- The units come back. -/
  undone {s t : γ} {notes : List (Note O R)} (hs : P s)
    (h : Backpressure.acquire c units now s = (none, t, notes)) :
    (Backpressure.releaseUnused (O := O) (R := R) c units now t).1 = s

section Undoing

variable {P : γ → Prop} {units now : UInt64} {granted : List κ} {s mid : γ}
    {asked : List (Note O R)}

/-- What a chain has just granted is undone, component by component from its end. -/
theorem releaseUnused_of_granted (hu : ∀ c ∈ granted, Undoes O R P units now c) (hs : P s)
    (hgranted : acquire units now granted s = (none, mid, asked)) :
    P mid ∧ (releaseUnused (O := O) (R := R) units now granted mid).1 = s := by
  induction granted generalizing s asked with
  | nil =>
    cases hgranted
    exact ⟨hs, rfl⟩
  | cons d granted ih =>
    obtain ⟨t, told, more, hfirst, hmore, rfl⟩ := exists_of_acquire_cons hgranted
    have hd := hu d List.mem_cons_self
    obtain ⟨hmid, hrest⟩ :=
      ih (fun c hc => hu c (List.mem_cons_of_mem d hc)) (hd.granted hs hfirst) hmore
    refine ⟨hmid, ?_⟩
    -- Once the others have undone their grants, this component is where it granted.
    change (Backpressure.releaseUnused (O := O) (R := R) d units now
      (releaseUnused (O := O) (R := R) units now granted mid).1).1 = s
    rw [hrest]
    exact hd.undone hs hfirst

end Undoing

/-! ## Semaphores -/

theorem setIfInBounds_of_getElem? {α : Type} {xs : Array α} {i : Nat} {x : α}
    (h : xs[i]? = some x) :
    xs.setIfInBounds i x = xs := by
  refine Array.ext_getElem? fun j => ?_
  by_cases hij : i = j
  · subst hij
    rw [Array.getElem?_setIfInBounds_self_of_lt (Array.getElem?_eq_some_iff.mp h).1, h]
  · rw [Array.getElem?_setIfInBounds_ne hij]

/-- There are semaphores at some places of a table of gates. -/
def SemaphoresAt (places : List Nat) (gates : Array Gate) : Prop :=
  ∀ i ∈ places, ∃ name reason s, gates[i]? = some (.semaphore name reason s)

omit [Outcome O] in
theorem SemaphoresAt.acquire {places : List Nat} {gates : Array Gate}
    (h : SemaphoresAt places gates)
    (c : Nat) (units now : UInt64) :
    SemaphoresAt places (stepGate gates c none (Gate.acquire (O := O) units now)).2.1 := by
  intro i hi
  obtain ⟨name, reason, s, hs⟩ := h i hi
  by_cases hc : c = i
  · subst hc
    exact ⟨name, reason, _, (stepGate_semaphore (O := O) units now hs).2⟩
  · exact ⟨name, reason, s, (getElem?_stepGate_of_ne hc).trans hs⟩

/-- A semaphore undoes its grants, whatever the other gates are and however often it was asked. -/
theorem semaphores_undo {places : List Nat} {c : Nat} (hc : c ∈ places) (units now : UInt64) :
    Undoes O Rejection (SemaphoresAt places) units now c where
  refused {gates t reason notes} hs h := by
    obtain ⟨name, why, s, hgate⟩ := hs c hc
    change stepGate gates c none (Gate.acquire (O := O) units now) = _ at h
    rw [stepGate, hgate] at h
    dsimp only [Gate.acquire] at h
    -- A semaphore that refuses is put back as it was.
    rcases htry : s.tryAcquire units with _ | s'
    · rw [htry] at h
      cases h
      exact setIfInBounds_of_getElem? hgate
    · rw [htry] at h
      cases h
  granted {gates t notes} hs h := by
    have hkept := hs.acquire (O := O) c units now
    change stepGate gates c none (Gate.acquire (O := O) units now) = _ at h
    rwa [h] at hkept
  undone {gates t notes} hs h := by
    obtain ⟨name, why, s, hgate⟩ := hs c hc
    change stepGate gates c none (Gate.acquire (O := O) units now) = _ at h
    rw [stepGate, hgate] at h
    dsimp only [Gate.acquire] at h
    rcases htry : s.tryAcquire units with _ | s'
    · rw [htry] at h
      cases h
    · rw [htry] at h
      cases h
      have hsize : c < gates.size := (Array.getElem?_eq_some_iff.mp hgate).1
      change (stepGate (gates.setIfInBounds c (.semaphore name why s')) c () fun g =>
        ((), g.releaseUnused (O := O) units now)).2.1 = gates
      rw [stepGate, Array.getElem?_setIfInBounds_self_of_lt hsize]
      dsimp only [Gate.releaseUnused]
      rw [Semaphore.release_of_tryAcquire htry, Array.setIfInBounds_setIfInBounds]
      exact setIfInBounds_of_getElem? hgate

end Chain

/-! ## Guard rails -/

variable {κ γ O R : Type} [Outcome O]

/-- What guard rails share, with watched components that have been called already. -/
def Plant.watched (p : Plant γ O R) (calls : List (Chain.Call κ O)) :
    Plant (Chain.Watched κ γ O) O R where
  components := ⟨p.components, calls⟩
  results := p.results
  rollingLatencies := p.rollingLatencies
  intervalLatencies := p.intervalLatencies
  notes := p.notes

namespace GuardRail

variable [MetricKey R] [Backpressure κ γ O R] {rail : GuardRail κ O R} {units now : UInt64}
  {p : Plant γ O R} {reason : R} {P : γ → Prop}

/-- A refused request is rolled back. It asks the components of the chain up to the one that
refuses, which undo their grants in the opposite order, and leaves all components as they were. It
is counted once, for the reason of the refusal. No result is counted and no latency. -/
theorem acquire_rolled_back (hu : ∀ c ∈ rail.chain, Chain.Undoes O R P units now c)
    (hp : P p.components) (h : (rail.acquire units now p).1 = some reason) :
    ∃ granted c rest told,
      rail.chain = granted ++ c :: rest ∧
      Chain.Refused O units now granted c reason p.components p.components ∧
      rail.acquire units now p =
        (some reason,
          { rail with
            rejections := rail.rejections.add reason units now
            rejectionTotals := rail.rejectionTotals.add reason units },
          { p with notes := p.notes ++ told }) ∧
      (∀ other, other ≠ reason →
        (rail.acquire units now p).2.1.rejectionTotals.get other = rail.rejectionTotals.get other) ∧
      rail.acquire units now (p.watched []) =
        (some reason, (rail.acquire units now p).2.1,
          (rail.acquire units now p).2.2.watched (Chain.undoneCalls granted c units now)) := by
  rcases hchain : Chain.acquire (O := O) (R := R) units now rail.chain p.components with
    ⟨_ | ⟨r, c⟩, after, notes⟩
  · rw [acquire, hchain] at h
    cases h
  · obtain rfl : r = reason := by
      rw [acquire, hchain] at h
      exact Option.some.inj h
    obtain ⟨granted, rest, hsplit, mid, asked, refused, told, hgranted, hrefused, -⟩ :=
      Chain.exists_refused_of_acquire (congrArg Prod.fst hchain)
    have hmem : ∀ d ∈ granted, Chain.Undoes O R P units now d := fun d hd => by
      refine hu d ?_
      rw [hsplit]
      exact List.mem_append_left _ hd
    -- The component that refuses leaves the state to which the others have brought it.
    obtain ⟨hmid, hundone⟩ := Chain.releaseUnused_of_granted hmem hp hgranted
    have hc : c ∈ rail.chain := by
      rw [hsplit]
      exact List.mem_append_right _ List.mem_cons_self
    obtain rfl := (hu c hc).refused hmid hrefused
    have hasked := Chain.acquire_append_of_refused hgranted hrefused rest
    have hwatched := Chain.acquire_watched_of_refused hgranted hrefused rest []
    rw [← hsplit, hundone] at hasked hwatched
    change Chain.acquire (R := R) units now rail.chain (p.watched []).components = _ at hwatched
    rw [acquire, acquire, hasked, hwatched]
    refine ⟨granted, c, rest, _, hsplit, ⟨_, asked, _, told, hgranted, hrefused, hundone.symm⟩,
      rfl, fun other hother => Counts.get_add_of_ne hother.symm, rfl⟩

/-- A semaphore that is nearly full, between two that are asked twice. -/
def pooledRail : GuardRail Nat ActionResult Rejection where
  name := "pooled"
  chain := [0, 1, 0, 2, 1]
  observers := []
  results := 0
  rollingLatency := none
  intervalLatency := none
  rejections := .empty ⟨6, 250000000, 0, by decide, by decide⟩

/-- The semaphores of the guard rail. -/
def pooledPlant : Plant (Array Gate) ActionResult Rejection where
  components := #[.semaphore "threads" .maxConcurrency ⟨10, 7⟩,
    .semaphore "memory" .maxConcurrency ⟨8, 8⟩, .semaphore "disk" .maxConcurrency ⟨4, 1⟩]
  results := #[]
  rollingLatencies := #[]
  intervalLatencies := #[]
  notes := []

/-- Two units are refused by the semaphore that is nearly full, and the others are restored. -/
theorem acquire_rolled_back_pooled :
    (pooledRail.acquire 2 5 pooledPlant).1 = some .maxConcurrency ∧
      (pooledRail.acquire 2 5 pooledPlant).2.2.components = pooledPlant.components ∧
      (pooledRail.acquire 2 5 pooledPlant).2.1.rejectionTotals.get .maxConcurrency = 2 ∧
      ∃ granted c rest, pooledRail.chain = granted ++ c :: rest ∧
        (pooledRail.acquire 2 5 (pooledPlant.watched [])).2.2.components =
          ⟨pooledPlant.components, Chain.undoneCalls granted c 2 5⟩ := by
  have hrefused : (pooledRail.acquire 2 5 pooledPlant).1 = some .maxConcurrency := by
    decide +kernel
  have hsemaphores : Chain.SemaphoresAt pooledRail.chain pooledPlant.components := by
    intro i hi
    simp only [pooledRail, List.mem_cons, List.not_mem_nil, or_false] at hi
    rcases hi with rfl | rfl | rfl | rfl | rfl <;> exact ⟨_, _, _, rfl⟩
  obtain ⟨granted, c, rest, told, hchain, -, hleft, -, hcalls⟩ :=
    acquire_rolled_back (fun c hc => Chain.semaphores_undo hc 2 5) hsemaphores hrefused
  refine ⟨hrefused, ?_, ?_, granted, c, rest, hchain, ?_⟩
  · rw [hleft]
  · rw [hleft]
    rfl
  · rw [hcalls, hleft]
    rfl

example : (pooledRail.acquire 2 5 (pooledPlant.watched [])).2.2.components.calls =
    [.asked 0 2 5, .asked 1 2 5, .asked 0 2 5, .asked 2 2 5, .unused 0 2 5, .unused 1 2 5,
      .unused 0 2 5] := by
  decide +kernel

end GuardRail

end Admission
