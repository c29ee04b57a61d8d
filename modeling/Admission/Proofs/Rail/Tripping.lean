import Admission.Gate.Basic
import Admission.Outcome.Vocabulary
import Admission.Proofs.Gate.Chain
import Admission.Proofs.Health
import Admission.Rail.Basic

/-!
# When the circuit breaker of a guard rail trips

A guard rail counts a result before its components get their permits back. So a circuit breaker in
its chain that reads the same counts, and keeps no look at the health, opens on a failure if and
only if the rail's own history, this failure included, exceeds the thresholds.

## Main definitions

* `Mounted`: a circuit breaker is one of the components
* `Table.circuit?`: the circuit breaker at a place of a table of gates
* `Session`: a guard rail at work, with the history of its results

## Main results

* `mounted_circuit?`: a circuit breaker in a table of gates is mounted
* `Mounted.circuit_release`: the circuit after a return of permits to a chain
* `Session.results_eq`, `Session.carries`: what holds throughout a session
* `release_opens_iff`: when a return of permits opens the circuit
-/

namespace Admission

open Window (Shape)

variable {κ γ O R : Type} [Outcome O] [Backpressure κ γ O R]

/-- A circuit breaker that judges by the counts at a place is one of the components. It may be
missing from the state of the components; where it is there, its component acts on it as a circuit
breaker does and no other component touches it. -/
structure Mounted (O R : Type) [Outcome O] [Backpressure κ γ O R]
    (circuit? : γ → Option CircuitBreaker) (key : κ) (place : Nat) : Prop where
  acquire_self {s : γ} {b : CircuitBreaker} (units now : UInt64) (h : circuit? s = some b) :
    circuit? (Backpressure.acquire (O := O) (R := R) key units now s).2.1 =
      some (b.acquire (O := O) (R := R) now).1
  release_self {s : γ} {b : CircuitBreaker} {metrics : Array (RollingCounts O)}
    {results : RollingCounts O} (units : UInt64) (outcome : O) (now : UInt64)
    (h : circuit? s = some b) (hr : metrics[place]? = some results) :
    circuit? (Backpressure.release (R := R) key units outcome now metrics s).1 =
      some (b.release (R := R) results outcome now).1
  releaseUnused_self (s : γ) (units now : UInt64) :
    circuit? (Backpressure.releaseUnused (O := O) (R := R) key units now s).1 = circuit? s
  /-- Another component does not touch it when it is asked. -/
  acquire_other {c : κ} (hc : c ≠ key) (units now : UInt64) (s : γ) :
    circuit? (Backpressure.acquire (O := O) (R := R) c units now s).2.1 = circuit? s
  /-- Another component does not touch it when it gets permits back. -/
  release_other {c : κ} (hc : c ≠ key) (units : UInt64) (outcome : O) (now : UInt64)
    (metrics : Array (RollingCounts O)) (s : γ) :
    circuit? (Backpressure.release (R := R) c units outcome now metrics s).1 = circuit? s
  /-- Another component does not touch it when it gets unused permits back. -/
  releaseUnused_other {c : κ} (hc : c ≠ key) (units now : UInt64) (s : γ) :
    circuit? (Backpressure.releaseUnused (O := O) (R := R) c units now s).1 = circuit? s

/-! ## Tables of gates -/

namespace Table

/-- The circuit breaker at a place of a table of gates, if it judges by the counts at `place`. -/
def circuit? (key place : Nat) (gates : Array Gate) : Option CircuitBreaker :=
  match gates[key]? with
  | some (.breaker _ metrics b) => if metrics = place then some b else none
  | _ => none

theorem circuit?_eq_some_iff {key place : Nat} {gates : Array Gate} {b : CircuitBreaker} :
    circuit? key place gates = some b ↔
      ∃ reason, gates[key]? = some (.breaker reason place b) := by
  unfold circuit?
  constructor
  · intro h
    split at h
    · rename_i reason metrics c hg
      split_ifs at h with hm
      cases h
      exact ⟨reason, hm ▸ hg⟩
    · cases h
  · rintro ⟨reason, hg⟩
    rw [hg]
    exact if_pos rfl

theorem circuit?_stepGate_of_ne {α β : Type} {gates : Array Gate} {i key : Nat} (h : i ≠ key)
    (place : Nat) (default : α) (f : Gate → α × Gate × List β) :
    circuit? key place (stepGate gates i default f).2.1 = circuit? key place gates := by
  rw [circuit?, getElem?_stepGate, if_neg h]
  rfl

/-- A circuit breaker in a table of gates is mounted there. -/
theorem mounted_circuit? (key place : Nat) :
    Mounted O Rejection (circuit? key place) key place where
  acquire_self units now h := by
    obtain ⟨reason, hg⟩ := circuit?_eq_some_iff.mp h
    refine circuit?_eq_some_iff.mpr ⟨reason, ?_⟩
    refine (getElem?_stepGate _ key _ _ key).trans ?_
    rw [if_pos rfl, hg]
    rfl
  release_self units outcome now h hr := by
    obtain ⟨reason, hg⟩ := circuit?_eq_some_iff.mp h
    refine circuit?_eq_some_iff.mpr ⟨reason, ?_⟩
    refine (getElem?_stepGate _ key _ _ key).trans ?_
    rw [if_pos rfl, hg, Option.map_some, Gate.release, hr]
  releaseUnused_self s units now := by
    have hstep := getElem?_stepGate s key () (fun g => ((), g.releaseUnused (O := O) units now)) key
    rw [if_pos rfl] at hstep
    change circuit? key place (stepGate s key () fun g => ((), g.releaseUnused units now)).2.1 = _
    rw [circuit?, hstep, circuit?]
    rcases s[key]? with _ | ⟨_ | _ | _ | _⟩ <;> rfl
  acquire_other hc units now s := circuit?_stepGate_of_ne hc place _ _
  release_other hc units outcome now metrics s := circuit?_stepGate_of_ne hc place _ _
  releaseUnused_other hc units now s := circuit?_stepGate_of_ne hc place _ _

end Table

/-! ## A circuit breaker in a chain -/

section Chain

variable {circuit? : γ → Option CircuitBreaker} {key : κ} {place : Nat} {config : BreakerConfig}

/-- There is a circuit, and its health is checked by the settings. -/
def Carries (circuit? : γ → Option CircuitBreaker) (config : BreakerConfig) (s : γ) : Prop :=
  ∃ b, circuit? s = some b ∧ b.Follows config

theorem Mounted.kept (hm : Mounted O R circuit? key place) :
    Chain.Kept κ O R (Carries circuit? config) where
  acquire c units now s := by
    rintro ⟨b, hb, hf⟩
    by_cases hc : c = key
    · subst hc
      exact ⟨_, hm.acquire_self units now hb, hf.acquire now⟩
    · exact ⟨b, (hm.acquire_other hc units now s).trans hb, hf⟩
  releaseUnused c units now s := by
    rintro ⟨b, hb, hf⟩
    refine ⟨b, Eq.trans ?_ hb, hf⟩
    by_cases hc : c = key
    · subst hc
      exact hm.releaseUnused_self s units now
    · exact hm.releaseUnused_other hc units now s

variable {units : UInt64} {outcome : O} {now : UInt64} {metrics : Array (RollingCounts O)}
  {results : RollingCounts O}

theorem Mounted.release_keeps (hm : Mounted O R circuit? key place)
    (hr : metrics[place]? = some results)
    (c : κ) {s : γ} (h : Carries circuit? config s) :
    Carries circuit? config (Backpressure.release (R := R) c units outcome now metrics s).1 := by
  obtain ⟨b, hb, hf⟩ := h
  by_cases hc : c = key
  · subst hc
    exact ⟨_, hm.release_self units outcome now hb hr, hf.release results outcome now⟩
  · exact ⟨b, (hm.release_other hc units outcome now metrics s).trans hb, hf⟩

theorem Mounted.circuit_release_of_not_mem (hm : Mounted O R circuit? key place) {chain : List κ}
    (h : key ∉ chain) (s : γ) :
    circuit? (Chain.release (R := R) units outcome now metrics chain s).1 = circuit? s := by
  induction chain generalizing s with
  | nil => rfl
  | cons c rest ih =>
    obtain ⟨hc, hrest⟩ := List.ne_and_not_mem_of_not_mem_cons h
    exact (ih hrest _).trans (hm.release_other (Ne.symm hc) units outcome now metrics s)

/-- A circuit that stands once in a chain hears an outcome once, wherever it stands. -/
theorem Mounted.circuit_release [DecidableEq κ] (hm : Mounted O R circuit? key place)
    (hr : metrics[place]? = some results) {chain : List κ} (hone : chain.count key = 1) {s : γ}
    {b : CircuitBreaker} (hb : circuit? s = some b) :
    circuit? (Chain.release (R := R) units outcome now metrics chain s).1 =
      some (b.release (R := R) results outcome now).1 := by
  induction chain generalizing s with
  | nil => cases hone
  | cons c rest ih =>
    by_cases hc : c = key
    · subst hc
      rw [List.count_cons_self, Nat.add_eq_right] at hone
      have hrest : c ∉ rest := List.count_eq_zero.mp hone
      exact (hm.circuit_release_of_not_mem hrest _).trans
        (hm.release_self units outcome now hb hr)
    · rw [List.count_cons_of_ne hc] at hone
      exact ih hone ((hm.release_other hc units outcome now metrics s).trans hb)

end Chain

/-! ## A guard rail at work -/

section Session

variable [MetricKey R]

/-- A guard rail at work, with the history of its results, the earliest first. It starts with empty
counts, and its results come back in the order of their timestamps. Meanwhile anything may happen to
the rest of the plant, and to the circuit too, as when it is opened or closed by hand: it only keeps
its settings. -/
inductive Session (circuit? : γ → Option CircuitBreaker) (config : BreakerConfig) (shape : Shape) :
    List (Tally O) → GuardRail κ O R → Plant γ O R → Prop
  | start {rail : GuardRail κ O R} {plant : Plant γ O R}
    (hr : plant.results[rail.results]? = some (.empty shape))
    (hc : Carries circuit? config plant.components) :
    Session circuit? config shape [] rail plant
  | acquire {history : List (Tally O)} {rail : GuardRail κ O R} {plant : Plant γ O R}
    (hs : Session circuit? config shape history rail plant) (units now : UInt64) :
    Session circuit? config shape history (rail.acquire units now plant).2.1
      (rail.acquire units now plant).2.2
  | release {history : List (Tally O)} {rail : GuardRail κ O R} {plant : Plant γ O R}
    (hs : Session circuit? config shape history rail plant) (units : UInt64) (outcome : O)
    (start now : UInt64) (hnow : ∀ t ∈ history, t.now ≤ now) :
    Session circuit? config shape (history ++ [⟨outcome, units, now⟩])
      (rail.release units outcome start now plant).1 (rail.release units outcome start now plant).2
  | releaseUnused {history : List (Tally O)} {rail : GuardRail κ O R} {plant : Plant γ O R}
    (hs : Session circuit? config shape history rail plant) (units now : UInt64) :
    Session circuit? config shape history rail (rail.releaseUnused units now plant)
  | elsewhere {history : List (Tally O)} {rail : GuardRail κ O R} {plant later : Plant γ O R}
    (hs : Session circuit? config shape history rail plant)
    (hr : later.results[rail.results]? = plant.results[rail.results]?)
    (hc : Carries circuit? config later.components) :
    Session circuit? config shape history rail later

variable {circuit? : γ → Option CircuitBreaker} {key : κ} {config : BreakerConfig} {shape : Shape}
  {history : List (Tally O)} {rail : GuardRail κ O R} {plant : Plant γ O R}

/-- Throughout a session the counts are those of its history. -/
theorem Session.results_eq (hs : Session circuit? config shape history rail plant) :
    plant.results[rail.results]? = some (.after shape history) := by
  induction hs with
  | start hr _ => exact hr
  | @acquire history rail plant hs units now ih =>
    rw [GuardRail.results_acquire, GuardRail.plant_results_acquire, ih]
  -- Only a return counts a result, and it does so before the components hear of it.
  | release hs units outcome start now _ ih =>
    rw [GuardRail.results_release, GuardRail.plant_results_release,
      GuardRail.results_recordResult, ih, RollingCounts.after_snoc]
    rfl
  | releaseUnused hs units now ih => exact ih
  | elsewhere hs hr _ ih => rw [hr, ih]

/-- Throughout a session there is a circuit with the settings. -/
theorem Session.carries (hs : Session circuit? config shape history rail plant)
    (hm : Mounted O R circuit? key rail.results) : Carries circuit? config plant.components := by
  induction hs with
  | start _ hc => exact hc
  | @acquire history rail plant hs units now ih =>
    rw [GuardRail.results_acquire] at hm
    rw [(rail.acquire_components units now plant).2]
    exact Chain.acquire_keeps hm.kept units now _ (ih hm)
  | release hs units outcome start now hnow ih =>
    rw [GuardRail.components_release]
    have hr := (hs.release units outcome start now hnow).results_eq
    exact Chain.release_keeps (fun c => hm.release_keeps hr c) _ (ih hm)
  | releaseUnused hs units now ih => exact Chain.releaseUnused_keeps hm.kept units now _ (ih hm)
  | elsewhere _ _ hc _ => exact hc

/-- **When a return of permits opens the circuit**: a closed circuit is open afterwards if and only
if the outcome is a failure, and the failures and results in the slots that the trailing period
covers, this one included, exceed the thresholds. -/
theorem release_opens_iff [DecidableEq κ] (hm : Mounted O R circuit? key rail.results)
    (hone : rail.chain.count key = 1) (hrefresh : config.healthRefreshMillis = 0)
    (hs : Session circuit? config shape history rail plant) {b : CircuitBreaker}
    (hb : circuit? plant.components = some b) (hclosed : b.state = .closed) (units : UInt64)
    (outcome : O) (start now : UInt64) (hnow : ∀ t ∈ history, t.now ≤ now)
    (hfit : Tally.resultsOver shape (history ++ [⟨outcome, units, now⟩]) config.trailingPeriod now <
      2 ^ 64) :
    ∃ b', circuit? (rail.release units outcome start now plant).2.components = some b' ∧
      (b'.state = .opened ↔ Outcome.isFailure outcome = true ∧ config.Trips
        (Tally.failuresOver shape (history ++ [⟨outcome, units, now⟩]) config.trailingPeriod now)
        (Tally.resultsOver shape (history ++ [⟨outcome, units, now⟩])
          config.trailingPeriod now)) := by
  obtain ⟨b₁, hb₁, hf⟩ := hs.carries hm
  obtain rfl : b = b₁ := Option.some.inj (hb.symm.trans hb₁)
  -- The result is counted before the circuit hears of it.
  have hr := (hs.release units outcome start now hnow).results_eq
  refine ⟨_, hm.circuit_release hr hone hb, ?_⟩
  have hle : ∀ t ∈ history ++ [⟨outcome, units, now⟩], t.now ≤ now := by
    intro t ht
    rcases List.mem_append.mp ht with ht | ht
    · exact hnow t ht
    · rw [List.mem_singleton.mp ht]
      exact UInt64.le_refl _
  rw [CircuitBreaker.state_release_eq_opened_iff hf hrefresh hclosed,
    config.isUnhealthy_health_after hle hfit]

end Session

/-! ## A circuit that opens on the second failure -/

/-- A semaphore, and a closed circuit that opens on more than five failures. -/
def guardedGates : Array Gate :=
  #[.semaphore "permits" .maxConcurrency ⟨10, 3⟩,
    .breaker .circuitOpen 0
      { name := "circuit"
        config := { failureThreshold := 5, failurePercentageThreshold := 100,
                    healthRefreshMillis := 0 }
        health := { trailing := .ofMillis 1000, refreshInterval := 0 } }]

/-- A plant with these gates and empty counts in two buckets of a second. -/
def guardedPlant : Plant (Array Gate) ActionResult Rejection where
  components := guardedGates
  results := #[.empty ⟨2, 1000000000, 0, by decide, by decide⟩]
  rollingLatencies := #[]
  intervalLatencies := #[]
  notes := []

/-- A guard rail with both gates. -/
def guardedRail : GuardRail Nat ActionResult Rejection where
  name := "guarded"
  chain := [0, 1]
  observers := []
  results := 0
  rollingLatency := none
  intervalLatency := none
  rejections := .empty ⟨2, 1000000000, 0, by decide, by decide⟩

/-- Three failing units, then four at the end of the same second: the circuit opens. Three, then
four two seconds later: it stays closed. -/
theorem release_opens_iff_guarded :
    let released := guardedRail.release 3 .error 0 5 guardedPlant
    (∃ b, Table.circuit? 1 0 (released.1.release 4 .error 0 999999999 released.2).2.components =
      some b ∧ b.state = .opened) ∧
    (∃ b, Table.circuit? 1 0 (released.1.release 4 .error 0 2000000000 released.2).2.components =
      some b ∧ b.state ≠ .opened) := by
  intro released
  have hstart : Session (Table.circuit? 1 0)
      { failureThreshold := 5, failurePercentageThreshold := 100, healthRefreshMillis := 0 }
      ⟨2, 1000000000, 0, by decide, by decide⟩ [] guardedRail guardedPlant :=
    .start rfl ⟨_, rfl, ⟨rfl, rfl, rfl⟩⟩
  have hs : Session (Table.circuit? 1 0) _ _ [⟨.error, 3, 5⟩] released.1 released.2 :=
    hstart.release 3 .error 0 5 (by simp)
  constructor
  · obtain ⟨b, hb, hopen⟩ := release_opens_iff (Table.mounted_circuit? 1 0) (by decide) rfl hs rfl
      rfl 4 .error 0 999999999 (by decide) (by decide)
    exact ⟨b, hb, hopen.mpr (by decide)⟩
  · obtain ⟨b, hb, hopen⟩ := release_opens_iff (Table.mounted_circuit? 1 0) (by decide) rfl hs rfl
      rfl 4 .error 0 2000000000 (by decide) (by decide)
    exact ⟨b, hb, fun h => absurd (hopen.mp h) (by decide)⟩

end Admission
