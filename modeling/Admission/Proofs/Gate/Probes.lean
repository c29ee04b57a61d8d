import Admission.Gate.CircuitBreaker
import Admission.Outcome.Vocabulary
import Admission.Proofs.Word
import Mathlib.Data.List.Induction

/-!
# When a circuit breaker admits a probe

An open circuit was last tested when it was opened, or when it last admitted a probe. Both leave the
time in the same place, and it stays there while the circuit is open; what happens to it while the
circuit is closed or forced open does not matter, since only a failure opens the circuit again, and
that is a test. So a request is admitted if and only if the backoff has passed since the last test
that a run has seen.

## Main definitions

* `BreakerCall`, `CircuitBreaker.serve`: what can be asked of a circuit breaker, and what it leaves
* `Trial`, `CircuitBreaker.trials`: a call with the circuit that it finds, and those of a run
* `Trial.test?`, `lastTest?`: the time of a test, and of the last one

## Main results

* `CircuitBreaker.opened_serve_iff`, `CircuitBreaker.not_opened_serve_iff`: what opens a circuit,
  and what an open circuit is left by
* `CircuitBreaker.state_after_forced`: a circuit that is forced open stays so
* `CircuitBreaker.lastTest?_trials`: an open circuit keeps the time of the last test
* `CircuitBreaker.lastTested_le_after`: while a circuit stays open, its tests go forward in time
* `CircuitBreaker.probes_spaced`: all of it for any run
-/

namespace Admission

/-- What can be asked of a circuit breaker. Outcomes and looks at the health find the counts as they
are at that time. -/
inductive BreakerCall (O : Type) [Outcome O] where
  | acquire (now : UInt64)
  | release (outcome : O) (now : UInt64) (results : RollingCounts O)
  | forceOpen
  | forceClosed
  | health (now : UInt64) (results : RollingCounts O)
  | stats (now : UInt64)

variable {O : Type} [Outcome O]

/-- A circuit after a call. -/
def CircuitBreaker.serve (b : CircuitBreaker) : BreakerCall O → CircuitBreaker
  | .acquire now => (b.acquire (O := O) (R := Rejection) now).1
  | .release outcome now results => (b.release (R := Rejection) results outcome now).1
  | .forceOpen => (b.forceOpen (O := O) (R := Rejection)).1
  | .forceClosed => (b.forceClosed (O := O) (R := Rejection)).1
  | .health now results => { b with health := (b.health.health results now).1 }
  | .stats _ => b

/-- Whether a request at a time is admitted. -/
def CircuitBreaker.admits (b : CircuitBreaker) (now : UInt64) : Bool :=
  (b.acquire (O := Unit) (R := Rejection) now).2.1

/-- A call with the circuit that it finds. -/
structure Trial (O : Type) [Outcome O] where
  found : CircuitBreaker
  call : BreakerCall O

namespace Trial

/-- The circuit after the call. -/
def left (t : Trial O) : CircuitBreaker := t.found.serve t.call

/-- The time of a test: a probe that an open circuit admits, or a failure that opens a closed
one. -/
def test? (t : Trial O) : Option UInt64 :=
  match t.call with
  | .acquire now => if t.found.state = .opened ∧ t.found.admits now then some now else none
  | .release _ now _ => if t.found.state = .closed ∧ t.left.state = .opened then some now else none
  | _ => none

end Trial

/-- The time of the last test in a run. -/
def lastTest? (trials : List (Trial O)) : Option UInt64 := (trials.filterMap Trial.test?).getLast?

namespace CircuitBreaker

/-- A circuit after some calls. -/
def after (b : CircuitBreaker) (calls : List (BreakerCall O)) : CircuitBreaker :=
  calls.foldl serve b

/-- The calls of a run, each with the circuit that it finds. -/
def trials : CircuitBreaker → List (BreakerCall O) → List (Trial O)
  | _, [] => []
  | b, c :: rest => ⟨b, c⟩ :: trials (b.serve c) rest

variable {b : CircuitBreaker} {c : BreakerCall O}

theorem after_append (b : CircuitBreaker) (calls more : List (BreakerCall O)) :
    b.after (calls ++ more) = (b.after calls).after more := List.foldl_append

theorem trials_append (b : CircuitBreaker) (calls more : List (BreakerCall O)) :
    b.trials (calls ++ more) = b.trials calls ++ (b.after calls).trials more := by
  induction calls generalizing b with
  | nil => rfl
  | cons c rest ih =>
    rw [List.cons_append, trials, ih, trials]
    rfl

/-- A run can be cut between any two of its calls. -/
theorem exists_of_trials_eq_append {calls : List (BreakerCall O)} {older newer : List (Trial O)}
    (h : b.trials calls = older ++ newer) :
    ∃ before later, calls = before ++ later ∧ older = b.trials before ∧
      newer = (b.after before).trials later := by
  induction older generalizing b calls with
  | nil => exact ⟨[], calls, rfl, rfl, h.symm⟩
  | cons t older ih =>
    cases calls with
    | nil => cases h
    | cons c rest =>
      rw [trials, List.cons_append, List.cons.injEq] at h
      obtain ⟨rfl, hrest⟩ := h
      obtain ⟨before, later, rfl, rfl, hnewer⟩ := ih hrest
      exact ⟨c :: before, later, rfl, rfl, hnewer⟩

/-! ## One call -/

omit [Outcome O] in
@[simp] theorem acquire_eq_admits {R : Type} (now : UInt64) :
    (b.acquire (O := O) (R := R) now).2.1 = b.admits now := by
  unfold admits acquire
  split
  · rfl
  · rfl
  · split <;> rfl

/-- An open circuit admits a request if the backoff has passed, a closed one every request, and one
that is forced open none. -/
theorem admits_iff {now : UInt64} :
    b.admits now = true ↔ b.state = .closed ∨ (b.state = .opened ∧ b.probeIsDue now = true) := by
  unfold admits acquire
  cases hs : b.state with
  | closed => simp
  | forcedOpen => simp
  | opened => cases hd : b.probeIsDue now <;> simp

theorem probeIsDue_iff {now : UInt64} :
    b.probeIsDue now = true ↔ b.backoff.toNat ≤ now.toNat - b.lastTested.toNat := by
  rw [probeIsDue, decide_eq_true_eq, UInt64.le_iff_toNat_le, subSat_toNat]

/-- The statistics tell no backoff of an open circuit exactly when it would admit a request. -/
theorem backoffRemaining_eq_zero_iff (hb : b.state = .opened) (now : UInt64) :
    (b.stats now).backoffRemaining = ⟨0⟩ ↔ b.admits now = true := by
  have hrest : (b.stats now).backoffRemaining =
      .ofNanos (subSat b.backoff (subSat now b.lastTested)) := by
    rw [stats, hb]
  rw [hrest, admits_iff, hb, Duration.ofNanos, Duration.mk.injEq, subSat_toNat, subSat_toNat,
    probeIsDue_iff]
  simp only [reduceCtorEq, false_or, true_and]
  omega

theorem serve_acquire (b : CircuitBreaker) (now : UInt64) :
    b.serve (.acquire now : BreakerCall O) =
      if b.state = .opened ∧ b.admits now = true then { b with lastTested := now } else b := by
  change (b.acquire (O := O) (R := Rejection) now).1 = _
  have hadmits : b.admits now = true ↔ _ := admits_iff
  unfold acquire
  split
  · rename_i hs
    rw [if_neg fun h => CircuitState.noConfusion (hs.symm.trans h.1)]
  · rename_i hs
    rw [if_neg fun h => CircuitState.noConfusion (hs.symm.trans h.1)]
  · rename_i hs
    rw [hs] at hadmits
    split
    · rename_i hd
      rw [if_pos ⟨hs, hadmits.mpr (Or.inr ⟨rfl, hd⟩)⟩]
    · rename_i hd
      rw [if_neg]
      rintro ⟨-, h⟩
      exact hd ((hadmits.mp h).resolve_left CircuitState.noConfusion).2

/-- A failure that finds the health bad opens a closed circuit and is a test of it. -/
theorem serve_release_of_closed (hb : b.state = .closed) (outcome : O) (now : UInt64)
    (results : RollingCounts O) :
    b.serve (.release outcome now results) =
      if Outcome.isFailure outcome = true then
        let b' := { b with health := (b.health.health results now).1 }
        if b.config.isUnhealthy (b.health.health results now).2 = true then
          { b' with state := .opened, lastTested := now }
        else b'
      else b := by
  change (b.release (R := Rejection) results outcome now).1 = _
  unfold release
  split
  · rename_i hopened
    rw [hb] at hopened
    cases hopened
  · split
    · unfold onFailure
      dsimp only
      split
      · rfl
      · rfl
    · rfl
  · rename_i hforced
    rw [hb] at hforced
    cases hforced

theorem serve_release_of_opened (hb : b.state = .opened) (outcome : O) (now : UInt64)
    (results : RollingCounts O) :
    b.serve (.release outcome now results) =
      if Outcome.isSuccess outcome = true then { b with state := .closed } else b := by
  unfold serve release
  rw [hb]
  dsimp only
  split <;> rfl

theorem serve_release_of_forcedOpen (hb : b.state = .forcedOpen) (outcome : O) (now : UInt64)
    (results : RollingCounts O) : b.serve (.release outcome now results) = b := by
  unfold serve release
  rw [hb]

@[simp] theorem config_serve : (b.serve c).config = b.config := by
  cases c with
  | acquire now => rw [serve_acquire]; split <;> rfl
  | release outcome now results =>
    cases hb : b.state with
    | closed => rw [serve_release_of_closed hb]; dsimp only; split_ifs <;> rfl
    | opened => rw [serve_release_of_opened hb]; split <;> rfl
    | forcedOpen => rw [serve_release_of_forcedOpen hb]
  | forceOpen => rfl
  | forceClosed => rfl
  | health now results => rfl
  | stats now => rfl

/-- **A circuit opens** only when it is closed, by a failure that finds the health bad. -/
theorem opened_serve_iff (hb : b.state ≠ .opened) :
    (b.serve c).state = .opened ↔ b.state = .closed ∧ ∃ outcome now results,
      c = .release outcome now results ∧ Outcome.isFailure outcome = true ∧
        b.config.isUnhealthy (b.health.health results now).2 = true := by
  constructor
  · intro h
    cases c with
    | acquire now =>
      rw [serve_acquire, if_neg fun hprobe => hb hprobe.1] at h
      exact absurd h hb
    | release outcome now results =>
      cases hs : b.state with
      | opened => exact absurd hs hb
      | forcedOpen =>
        rw [serve_release_of_forcedOpen hs] at h
        exact absurd h hb
      | closed =>
        rw [serve_release_of_closed hs] at h
        dsimp only at h
        split_ifs at h with hfailure hbad
        · exact ⟨rfl, outcome, now, results, rfl, hfailure, hbad⟩
        · exact absurd h hb
        · exact absurd h hb
    | forceOpen => cases h
    | forceClosed => cases h
    | health now results => exact absurd h hb
    | stats now => exact absurd h hb
  · rintro ⟨hclosed, outcome, now, results, rfl, hfailure, hbad⟩
    rw [serve_release_of_closed hclosed, if_pos hfailure]
    dsimp only
    rw [if_pos hbad]

/-- **An open circuit is left** by a success, and by hand. -/
theorem not_opened_serve_iff (hb : b.state = .opened) :
    (b.serve c).state ≠ .opened ↔
      (∃ outcome now results, c = .release outcome now results ∧ Outcome.isSuccess outcome = true) ∨
        c = .forceOpen ∨ c = .forceClosed := by
  constructor
  · intro h
    cases c with
    | acquire now =>
      refine absurd ?_ h
      rw [serve_acquire]
      split <;> exact hb
    | release outcome now results =>
      rw [serve_release_of_opened hb] at h
      split_ifs at h with hsuccess
      · exact Or.inl ⟨outcome, now, results, rfl, hsuccess⟩
      · exact absurd hb h
    | forceOpen => exact Or.inr (Or.inl rfl)
    | forceClosed => exact Or.inr (Or.inr rfl)
    | health now results => exact absurd hb h
    | stats now => exact absurd hb h
  · rintro (⟨outcome, now, results, rfl, hsuccess⟩ | rfl | rfl)
    · rw [serve_release_of_opened hb, if_pos hsuccess]
      exact CircuitState.noConfusion
    · exact CircuitState.noConfusion
    · exact CircuitState.noConfusion

/-- A circuit that is forced open rejects everything, and nothing but its being closed by hand
changes this. -/
theorem serve_of_forcedOpen (hb : b.state = .forcedOpen) (hc : c ≠ .forceClosed) :
    (b.serve c).state = .forcedOpen := by
  cases c with
  | acquire now =>
    rw [serve_acquire]
    split <;> exact hb
  | release outcome now results => rw [serve_release_of_forcedOpen hb, hb]
  | forceOpen => rfl
  | forceClosed => exact absurd rfl hc
  | health now results => exact hb
  | stats now => exact hb

/-- A circuit that is open after a call was tested by it, or was open before and last tested
then. -/
theorem lastTested_serve (h : (b.serve c).state = .opened) :
    (∃ t, (⟨b, c⟩ : Trial O).test? = some t ∧ (b.serve c).lastTested = t) ∨
      ((⟨b, c⟩ : Trial O).test? = none ∧ b.state = .opened ∧
        (b.serve c).lastTested = b.lastTested) := by
  by_cases hb : b.state = .opened
  · cases c with
    | acquire now =>
      rw [serve_acquire, Trial.test?]
      dsimp only
      split_ifs with hprobe
      · exact Or.inl ⟨now, rfl, rfl⟩
      · exact Or.inr ⟨rfl, hb, rfl⟩
    | release outcome now results =>
      refine Or.inr ⟨?_, hb, ?_⟩
      · refine if_neg fun hclosed => ?_
        rw [hb] at hclosed
        cases hclosed.1
      · rw [serve_release_of_opened hb]
        split <;> rfl
    | forceOpen => cases h
    | forceClosed => cases h
    | health now results => exact Or.inr ⟨rfl, hb, rfl⟩
    | stats now => exact Or.inr ⟨rfl, hb, rfl⟩
  · obtain ⟨hclosed, outcome, now, results, rfl, hfailure, hbad⟩ := (opened_serve_iff hb).mp h
    refine Or.inl ⟨now, if_pos ⟨hclosed, h⟩, ?_⟩
    rw [serve_release_of_closed hclosed, if_pos hfailure]
    dsimp only
    rw [if_pos hbad]

/-- A test that finds the circuit open is a probe, and comes after the backoff. -/
theorem probe_due (hbackoff : 0 < b.backoff.toNat) (hb : b.state = .opened) {t : UInt64}
    (ht : (⟨b, c⟩ : Trial O).test? = some t) : b.lastTested.toNat + b.backoff.toNat ≤ t.toNat := by
  cases c with
  | acquire now =>
    rw [Trial.test?] at ht
    dsimp only at ht
    split_ifs at ht with hprobe
    have hdue : b.probeIsDue now = true := by
      rcases admits_iff.mp hprobe.2 with hclosed | hopened
      · rw [hb] at hclosed
        cases hclosed
      · exact hopened.2
    rw [probeIsDue_iff] at hdue
    rw [← Option.some.inj ht]
    omega
  | release outcome now results =>
    rw [Trial.test?] at ht
    dsimp only at ht
    split_ifs at ht with hopens
    rw [hb] at hopens
    cases hopens.1
  | forceOpen => cases ht
  | forceClosed => cases ht
  | health now results => cases ht
  | stats now => cases ht

/-! ## Runs -/

theorem config_after (b : CircuitBreaker) (calls : List (BreakerCall O)) :
    (b.after calls).config = b.config := by
  induction calls generalizing b with
  | nil => rfl
  | cons c rest ih => exact (ih (b.serve c)).trans config_serve

theorem backoff_after (b : CircuitBreaker) (calls : List (BreakerCall O)) :
    (b.after calls).backoff = b.backoff := by
  rw [backoff, config_after, backoff]

theorem state_after_forced (b : CircuitBreaker) (before : List (BreakerCall O))
    {forced : List (BreakerCall O)} (hforced : .forceClosed ∉ forced) :
    (b.after (before ++ .forceOpen :: forced)).state = .forcedOpen := by
  rw [after_append]
  have hstays {b : CircuitBreaker} (hb : b.state = .forcedOpen) :
      (b.after forced).state = .forcedOpen := by
    induction forced generalizing b with
    | nil => exact hb
    | cons c rest ih =>
      obtain ⟨hc, hrest⟩ := List.ne_and_not_mem_of_not_mem_cons hforced
      exact ih hrest (serve_of_forcedOpen hb (Ne.symm hc))
  exact hstays rfl

/-- **An open circuit keeps the time of its last test**, if the run started when it was not open. -/
theorem lastTest?_trials (hb : b.state ≠ .opened) {calls : List (BreakerCall O)}
    (h : (b.after calls).state = .opened) :
    lastTest? (b.trials calls) = some (b.after calls).lastTested := by
  induction calls using List.reverseRecOn with
  | nil => exact absurd h hb
  | append_singleton before c ih =>
    rw [after_append] at h ⊢
    rw [trials_append, lastTest?, List.filterMap_append]
    change ((b.after before).serve c).state = .opened at h
    change (_ ++ List.filterMap Trial.test? [⟨b.after before, c⟩]).getLast? =
      some ((b.after before).serve c).lastTested
    rcases lastTested_serve h with ⟨t, ht, hlast⟩ | ⟨hnone, hopened, hlast⟩
    · rw [hlast, List.filterMap_cons_some ht, List.filterMap_nil, List.getLast?_concat]
    · rw [hlast, List.filterMap_cons_none hnone, List.filterMap_nil, List.append_nil]
      exact ih hopened

/-- **While a circuit stays open, its tests go forward in time**, whatever its clock does. -/
theorem lastTested_le_after (hbackoff : 0 < b.backoff.toNat) (hb : b.state = .opened)
    {calls : List (BreakerCall O)} (h : ∀ t ∈ b.trials calls, t.left.state = .opened) :
    (b.after calls).state = .opened ∧ b.lastTested.toNat ≤ (b.after calls).lastTested.toNat := by
  induction calls generalizing b with
  | nil => exact ⟨hb, Nat.le_refl _⟩
  | cons c rest ih =>
    obtain ⟨hc, hrest⟩ := List.forall_mem_cons.mp h
    change (b.serve c).state = .opened at hc
    have hstep : b.lastTested.toNat ≤ (b.serve c).lastTested.toNat := by
      rcases lastTested_serve hc with ⟨t, ht, hlast⟩ | ⟨-, -, hlast⟩
      · -- The test is a probe, and it comes after the backoff.
        have hdue := probe_due hbackoff hb ht
        rw [hlast]
        omega
      · rw [hlast]
    have hkept : 0 < (b.serve c).backoff.toNat := by
      rw [backoff, config_serve]
      exact hbackoff
    obtain ⟨hopened, hle⟩ := ih hkept hc hrest
    exact ⟨hopened, hstep.trans hle⟩

/-- Tests of one spell are at least one backoff apart. -/
theorem tests_apart (hbackoff : 0 < b.backoff.toNat) {calls : List (BreakerCall O)}
    {older middle newer : List (Trial O)} {t t' : Trial O} {time time' : UInt64}
    (hsplit : b.trials calls = older ++ t :: middle ++ t' :: newer) (ht : t.test? = some time)
    (ht' : t'.test? = some time') (hspell : ∀ s ∈ t :: middle, s.left.state = .opened) :
    time.toNat + b.backoff.toNat ≤ time'.toNat := by
  rw [List.append_assoc] at hsplit
  obtain ⟨before, later, -, -, hlater⟩ := exists_of_trials_eq_append hsplit
  cases later with
  | nil => cases hlater
  | cons c later =>
    rw [trials, List.cons_append, List.cons.injEq] at hlater
    obtain ⟨rfl, hlater⟩ := hlater
    obtain ⟨between, rest, -, rfl, hrest⟩ := exists_of_trials_eq_append hlater.symm
    cases rest with
    | nil => cases hrest
    | cons c' rest =>
      rw [trials, List.cons.injEq] at hrest
      obtain ⟨rfl, -⟩ := hrest
      obtain ⟨hopened, hmiddle⟩ := List.forall_mem_cons.mp hspell
      have hlast : ((b.after before).serve c).lastTested = time := by
        rcases lastTested_serve hopened with ⟨s, hs, hlast⟩ | ⟨hnone, -⟩
        · rw [hlast]
          exact Option.some.inj (hs.symm.trans ht)
        · rw [hnone] at ht
          cases ht
      have hfirst : 0 < ((b.after before).serve c).backoff.toNat := by
        rw [backoff, config_serve, ← backoff, backoff_after]
        exact hbackoff
      obtain ⟨hstill, hle⟩ := lastTested_le_after hfirst hopened hmiddle
      have hsecond : 0 < (((b.after before).serve c).after between).backoff.toNat := by
        rw [backoff_after]
        exact hfirst
      have hdue := probe_due hsecond hstill ht'
      rw [backoff_after, backoff, config_serve, ← backoff, backoff_after] at hdue
      rw [hlast] at hle
      exact (Nat.add_le_add_right hle _).trans hdue

theorem of_make {name : String} {config : BreakerConfig} (h : make name config = .ok b) :
    b.config = config ∧ b.state = .closed ∧ config.backoffPeriodMillis ≠ 0 := by
  unfold make at h
  cases hv : config.validate with
  | error e =>
    rw [hv] at h
    cases h
  | ok _ =>
    rw [hv] at h
    cases h
    refine ⟨rfl, rfl, fun hzero => ?_⟩
    -- A backoff of no length does not pass the check.
    have hfails : ¬ config.backoffPeriodMillis ≠ 0 := not_not.mpr hzero
    unfold BreakerConfig.validate at hv
    rw [require, require, require, if_neg hfails] at hv
    split_ifs at hv <;> cases hv

/-- **When a circuit breaker admits a probe.** After any calls of a breaker with valid settings:

* an open circuit was tested before, and admits a request if and only if the backoff has passed
  since the last test; tests that follow each other while it stays open are at least one backoff
  apart;
* a circuit that was forced open, and not closed by hand since, rejects every request, and no
  outcome changes its state;
* a circuit is opened only when it is closed, by a failure that finds the health bad, and an open
  one is left only by a success and by hand;
* the statistics of an open circuit tell that no backoff remains exactly when a request is
admitted. -/
theorem probes_spaced {name : String} {config : BreakerConfig} {first : CircuitBreaker}
    (hmake : make name config = .ok first) (calls : List (BreakerCall O)) :
    let backoff := min (config.backoffPeriodMillis.toNat * 1000000) (2 ^ 64 - 1)
    let b := first.after calls
    (b.state = .opened → ∃ last, lastTest? (first.trials calls) = some last ∧
      ∀ now, b.admits now = true ↔ backoff ≤ now.toNat - last.toNat) ∧
    (∀ (older middle newer : List (Trial O)) (t t' : Trial O) (time time' : UInt64),
      first.trials calls = older ++ t :: middle ++ t' :: newer →
        t.test? = some time → t'.test? = some time' →
          (∀ s ∈ t :: middle, s.left.state = .opened) → time.toNat + backoff ≤ time'.toNat) ∧
    (∀ before forced : List (BreakerCall O),
      calls = before ++ .forceOpen :: forced → .forceClosed ∉ forced →
        b.state = .forcedOpen ∧ (∀ now, b.admits now = false) ∧
          ∀ (outcome : O) (now : UInt64) (results : RollingCounts O),
            (b.serve (.release outcome now results)).state = b.state) ∧
    (b.state ≠ .opened → ∀ c : BreakerCall O, (b.serve c).state = .opened ↔
      b.state = .closed ∧ ∃ outcome now results, c = .release outcome now results ∧
        Outcome.isFailure outcome = true ∧
          config.isUnhealthy (b.health.health results now).2 = true) ∧
    (b.state = .opened → ∀ c : BreakerCall O, (b.serve c).state ≠ .opened ↔
      (∃ outcome now results, c = .release outcome now results ∧ Outcome.isSuccess outcome = true) ∨
        c = .forceOpen ∨ c = .forceClosed) ∧
    (b.state = .opened →
      ∀ now, (b.stats now).backoffRemaining = ⟨0⟩ ↔ b.admits now = true) := by
  intro backoff b
  obtain ⟨hconfig, hclosed, hmillis⟩ := of_make hmake
  have hbackoff : ∀ more : List (BreakerCall O), (first.after more).backoff.toNat = backoff := by
    intro more
    rw [backoff_after, CircuitBreaker.backoff, hconfig, Duration.toWord_toNat]
    rfl
  have hpos : 0 < first.backoff.toNat := by
    have hnat : config.backoffPeriodMillis.toNat ≠ 0 := fun h => hmillis (UInt64.toNat_inj.mp h)
    have hzero := hbackoff []
    change first.backoff.toNat = _ at hzero
    omega
  have hidle : first.state ≠ .opened := by
    rw [hclosed]
    exact CircuitState.noConfusion
  refine ⟨?_, ?_, ?_, ?_, ?_, ?_⟩
  · intro hopened
    refine ⟨_, lastTest?_trials hidle hopened, fun now => ?_⟩
    rw [admits_iff, hopened, probeIsDue_iff, hbackoff]
    exact ⟨fun h => (h.resolve_left CircuitState.noConfusion).2, fun h => Or.inr ⟨rfl, h⟩⟩
  · intro older middle newer t t' time time' hsplit ht ht' hspell
    have hapart := tests_apart hpos hsplit ht ht' hspell
    rwa [show first.backoff.toNat = backoff from hbackoff []] at hapart
  · rintro before forced rfl hforced
    have hstate : b.state = .forcedOpen := state_after_forced first before hforced
    refine ⟨hstate, fun now => ?_, fun outcome now results => ?_⟩
    · rw [← Bool.not_eq_true, admits_iff, hstate]
      simp
    · rw [serve_release_of_forcedOpen hstate]
  · intro hnot c
    rw [opened_serve_iff hnot, config_after, hconfig]
  · intro hopened c
    exact not_opened_serve_iff hopened
  · intro hopened now
    exact backoffRemaining_eq_zero_iff hopened now

/-- Settings that open a circuit on the first failure, with a backoff of a millisecond. -/
def touchy : BreakerConfig :=
  { failureThreshold := 0, failurePercentageThreshold := 100, backoffPeriodMillis := 1,
    healthRefreshMillis := 0 }

/-- A failure in one bucket of a minute. -/
def oneFailure : RollingCounts ActionResult :=
  (RollingCounts.empty ⟨1, 60000000000, 0, by decide, by decide⟩).add .error 1 5

/-- A circuit with these settings. -/
def touchyCircuit : CircuitBreaker where
  name := "circuit"
  config := touchy
  health := .make touchy.trailingPeriod touchy.healthRefresh

/-- The circuit opens at 5 and admits probes at the first times from which the backoff has passed;
in between, and when the clock goes back, it rejects. -/
theorem probes_spaced_touchy :
    let calls : List (BreakerCall ActionResult) :=
      [.release .error 5 oneFailure, .acquire 1000004, .acquire 1000005,
        .release .error 1000006 oneFailure,
        .acquire 3, .stats 1500000, .acquire 2000005]
    make "circuit" touchy = .ok touchyCircuit ∧ (touchyCircuit.after calls).state = .opened ∧
      (touchyCircuit.trials calls).filterMap Trial.test? = [5, 1000005, 2000005] ∧
      ∃ last : UInt64, lastTest? (touchyCircuit.trials calls) = some last ∧
        ∀ now, (touchyCircuit.after calls).admits now = true ↔
          1000000 ≤ now.toNat - last.toNat := by
  intro calls
  have hmake : make "circuit" touchy = .ok touchyCircuit := rfl
  have hopened : (touchyCircuit.after calls).state = .opened := by decide +kernel
  have hbackoff : min (touchy.backoffPeriodMillis.toNat * 1000000) (2 ^ 64 - 1) = 1000000 := by
    decide +kernel
  obtain ⟨hprobe, -⟩ := probes_spaced hmake calls
  obtain ⟨last, hlast, hadmits⟩ := hprobe hopened
  refine ⟨hmake, hopened, by decide +kernel, last, hlast, fun now => ?_⟩
  have hnow := hadmits now
  rw [hbackoff] at hnow
  exact hnow

end CircuitBreaker
end Admission
