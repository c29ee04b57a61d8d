import Admission.Proofs.Gate.Chain
import Admission.Proofs.Gate.Periods
import Admission.Proofs.Gate.Probes
import Admission.Proofs.Gate.Semaphores
import Admission.Rail.Basic

/-!
# What a refused request leaves behind

The components before the one that refuses a request have granted it, and get their permits back as
unused. Only semaphores hold permits, so only they have something to take back. A rate limiter
bounds admissions and not work in flight: what it granted stays counted in its period. An open
circuit that let the request through was tested by it, and waits for its backoff again. All other
components are as if the request had not been made, but for a period that was over anyway.

## Main definitions

* `Gate.Restored`: nothing is left behind in a component
* `RateLimiter.Charged`: a rate limiter that has counted so many units in the period of a time

## Main results

* `Chain.exists_refused`: a component after a refused request, step by step
* `Chain.limiter_refused`, `Chain.breaker_refused`: a rate limiter and a circuit breaker after it
* `GuardRail.refused_leaves`: every component of a guard rail after it
* `GuardRail.refused_not_restored`: not all of them are restored
-/

namespace Admission

namespace RateLimiter

variable {l : RateLimiter} {units now : UInt64}

/-- A period that has begun for a time does not begin again for it. -/
@[simp] theorem rollOver_rollOver (l : RateLimiter) (now : UInt64) :
    (l.rollOver now).rollOver now = l.rollOver now := by
  by_cases hdue : l.deadline ≤ now
  · rw [rollOver_of_le hdue]
    by_cases hagain : l.nextDeadline now ≤ now
    · -- Time has come to its end, and all deadlines from now on are there.
      have hend : l.nextDeadline now = addSat now l.period := by
        unfold nextDeadline at hagain ⊢
        dsimp only at hagain ⊢
        split at hagain
        · rename_i hnext
          exact if_pos hnext
        · contradiction
      have hstays : addSat now l.period = now := by
        have hsum := addSat_toNat now l.period
        have hnow := now.toNat_lt
        have hm : maxWord.toNat = 2 ^ 64 - 1 := rfl
        rw [hend, UInt64.le_iff_toNat_le] at hagain
        exact UInt64.toNat_inj.mp (by omega)
      rw [hend, hstays, rollOver_of_le (UInt64.le_refl _), nextDeadline]
      dsimp only
      rw [hstays, if_pos (UInt64.le_refl _)]
    · rw [rollOver_of_lt hagain]
  · rw [rollOver_of_lt hdue, rollOver_of_lt hdue]

/-- What was counted at a time that has no period is forgotten by the next request at it. -/
theorem rollOver_tryAcquire (l : RateLimiter) (units now : UInt64)
    (hover : (l.rollOver now).deadline ≤ now) :
    (l.tryAcquire units now).1.rollOver now = l.rollOver now := by
  rw [tryAcquire_fst]
  refine Eq.trans ?_ (rollOver_rollOver l now)
  rw [rollOver_of_le hover]
  exact rollOver_of_le hover

/-- The limiter `t` is `l` in the period of `now`, with `n` more units counted. -/
def Charged (l : RateLimiter) (now : UInt64) (n : Nat) (t : RateLimiter) : Prop :=
  ∃ count, t = { l.rollOver now with count } ∧ count.toNat = (l.rollOver now).count.toNat + n

/-- A request counts its units in the period of its time if it is granted. -/
theorem charged_tryAcquire (l : RateLimiter) (units now : UInt64) :
    l.Charged now (if (l.tryAcquire units now).2 then units.toNat else 0)
      (l.tryAcquire units now).1 := by
  refine ⟨(l.tryAcquire units now).1.count, ?_, ?_⟩
  · rw [tryAcquire_fst]
  · rw [count_tryAcquire, Nat.add_comm]

/-- A limiter that has counted units in the period of a time is still in it. -/
theorem Charged.rollOver {t : RateLimiter} {n : Nat} (h : l.Charged now n t)
    (hahead : now < (l.rollOver now).deadline) : t.rollOver now = t := by
  obtain ⟨count, rfl, -⟩ := h
  exact rollOver_of_lt (UInt64.not_le.mpr hahead)

/-- Units are counted on top of each other while the period lasts. -/
theorem Charged.trans {t u : RateLimiter} {n k : Nat} (h : l.Charged now n t)
    (h' : t.Charged now k u)
    (hahead : now < (l.rollOver now).deadline) : l.Charged now (n + k) u := by
  have hroll := h.rollOver hahead
  obtain ⟨count, rfl, hcount⟩ := h
  obtain ⟨count', rfl, hcount'⟩ := h'
  rw [hroll] at hcount' ⊢
  exact ⟨count', rfl, by dsimp only at hcount'; omega⟩

end RateLimiter

variable {O : Type} [Outcome O]

/-- A component is left as if a request at `now` had not been made; a period that is over at `now`
may have ended. -/
def Gate.Restored (now : UInt64) : Gate → Gate → Prop
  | semaphore _ _ s, semaphore _ _ t => t.remaining = s.remaining
  | limiter _ _ l, limiter _ _ t => (t.rollOver now).count = (l.rollOver now).count
  | breaker _ _ b, breaker _ _ c => c.state = b.state ∧ c.lastTested = b.lastTested
  | scripted _, scripted _ => True
  | _, _ => False

namespace Chain

variable {units now : UInt64} {granted : List Nat} {gates mid after : Array Gate} {c i : Nat}
  {reason : Rejection} {notes : List (Note O Rejection)} {g : Gate} {R : Nat → Gate → Prop}

/-- What holds of a component after each grant holds of it after a chain that grants, with one grant
for each time that it stands in the chain. -/
theorem exists_granted {n : Nat}
    (hgrant : ∀ n g, R n g → (g.acquire (O := O) units now).1 = none →
      R (n + 1) (g.acquire (O := O) units now).2.1)
    (h : Chain.acquire (O := O) (R := Rejection) units now granted gates = (none, mid, notes))
    (hg : gates[i]? = some g) (hR : R n g) :
    ∃ g', mid[i]? = some g' ∧ R (n + granted.count i) g' := by
  induction granted generalizing gates n g notes with
  | nil =>
    cases h
    exact ⟨g, hg, hR⟩
  | cons d rest ih =>
    rw [Chain.acquire] at h
    rcases hfirst : @Backpressure.acquire Nat (Array Gate) O Rejection _ _ d units now gates with
      ⟨_ | r, t, told⟩
    · rw [hfirst] at h
      dsimp only at h
      rcases hmore : Chain.acquire (O := O) (R := Rejection) units now rest t with ⟨_ | r, u, more⟩
      · rw [hmore] at h
        cases h
        change stepGate gates d none (Gate.acquire (O := O) units now) = (none, t, told) at hfirst
        by_cases hd : d = i
        · subst hd
          have hanswer : (g.acquire (O := O) units now).1 = none := by
            rw [stepGate, hg] at hfirst
            exact congrArg Prod.fst hfirst
          have hnext : (stepGate gates d none (Gate.acquire (O := O) units now)).2.1[d]? =
              some (g.acquire (O := O) units now).2.1 := getElem?_stepGate_self hg
          rw [hfirst] at hnext
          obtain ⟨g', hg', hR'⟩ := ih hmore hnext (hgrant n g hR hanswer)
          refine ⟨g', hg', ?_⟩
          rwa [List.count_cons_self, Nat.add_comm _ 1, ← Nat.add_assoc]
        · have hnext :
            (stepGate gates d none (Gate.acquire (O := O) units now)).2.1[i]? = gates[i]? :=
            getElem?_stepGate_of_ne hd
          rw [hfirst] at hnext
          rw [List.count_cons_of_ne hd]
          exact ih hmore (hnext.trans hg) hR
      · rw [hmore] at h
        cases h
    · rw [hfirst] at h
      cases h

/-- A component that has nothing to take back is as it was after the return of unused permits. -/
theorem getElem?_releaseUnused (hkept : (g.releaseUnused (O := O) units now).1 = g)
    (hg : gates[i]? = some g) (chain : List Nat) :
    (Chain.releaseUnused (O := O) (R := Rejection) units now chain gates).1[i]? = some g := by
  induction chain with
  | nil => exact hg
  | cons d rest ih =>
    by_cases hd : d = i
    · subst hd
      refine (getElem?_stepGate_self ih).trans ?_
      rw [hkept]
    · exact (getElem?_stepGate_of_ne hd).trans ih

/-- What holds of a component after each grant, and is not changed by a refusal or by the return of
unused permits, holds of it after a refused request, with one grant for each time that it stands
before the component that refuses. -/
theorem exists_refused
    (hgrant : ∀ n g, R n g → (g.acquire (O := O) units now).1 = none →
      R (n + 1) (g.acquire (O := O) units now).2.1)
    (hrefuse : ∀ n g, R n g → (g.acquire (O := O) units now).1 ≠ none →
      R n (g.acquire (O := O) units now).2.1)
    (hkept : ∀ n g, R n g → (g.releaseUnused (O := O) units now).1 = g)
    (h : Refused O units now granted c reason gates after)
    (hg : gates[i]? = some g) (hR : R 0 g) :
    ∃ g', after[i]? = some g' ∧ R (granted.count i) g' := by
  obtain ⟨mid, _, refused, _, hgranted, hrefused, rfl⟩ := h
  obtain ⟨g', hg', hR'⟩ := exists_granted hgrant hgranted hg hR
  rw [Nat.zero_add] at hR'
  change stepGate mid c none (Gate.acquire (O := O) units now) =
    (some reason, refused, _) at hrefused
  by_cases hc : c = i
  · subst hc
    have hanswer : (g'.acquire (O := O) units now).1 = some reason := by
      rw [stepGate, hg'] at hrefused
      exact congrArg Prod.fst hrefused
    have hnext : (stepGate mid c none (Gate.acquire (O := O) units now)).2.1[c]? =
        some (g'.acquire (O := O) units now).2.1 := getElem?_stepGate_self hg'
    rw [hrefused] at hnext
    have hlast := hrefuse _ g' hR' (by rw [hanswer]; exact Option.some_ne_none reason)
    exact ⟨_, getElem?_releaseUnused (hkept _ _ hlast) hnext granted, hlast⟩
  · have hnext : (stepGate mid c none (Gate.acquire (O := O) units now)).2.1[i]? = mid[i]? :=
      getElem?_stepGate_of_ne hc
    rw [hrefused] at hnext
    exact ⟨g', getElem?_releaseUnused (hkept _ _ hR') (hnext.trans hg') granted, hR'⟩

/-- A rate limiter after a refused request: what it granted stays counted. -/
theorem limiter_refused {name : String} {why : Rejection} {l : RateLimiter}
    (h : Refused O units now granted c reason gates after)
    (hg : gates[i]? = some (.limiter name why l)) :
    ∃ t, after[i]? = some (.limiter name why t) ∧
      (i ∉ granted → t = l ∨ t = l.rollOver now) ∧
      (i ∈ granted → now < (l.rollOver now).deadline →
        l.Charged now (granted.count i * units.toNat) t) ∧
      ((l.rollOver now).deadline ≤ now → t.rollOver now = l.rollOver now) := by
  -- After `n` grants the limiter has counted the units as often, once its period has begun.
  let R (n : Nat) (g : Gate) : Prop := ∃ t, g = .limiter name why t ∧
    (n = 0 → t = l ∨ t = l.rollOver now) ∧
    (n ≠ 0 → now < (l.rollOver now).deadline → l.Charged now (n * units.toNat) t) ∧
    ((l.rollOver now).deadline ≤ now → t.rollOver now = l.rollOver now)
  have hbegun {t : RateLimiter} (h : t = l ∨ t = l.rollOver now) :
      t.rollOver now = l.rollOver now := by
    rcases h with rfl | rfl
    · rfl
    · exact l.rollOver_rollOver now
  have hgrant : ∀ n g, R n g → (g.acquire (O := O) units now).1 = none →
      R (n + 1) (g.acquire (O := O) units now).2.1 := by
    rintro n _ ⟨t, rfl, hidle, hcharged, hover⟩ hanswer
    have hyes : (t.tryAcquire units now).2 = true := by
      by_contra hno
      rw [Gate.acquire] at hanswer
      dsimp only at hanswer
      rw [if_neg hno] at hanswer
      cases hanswer
    have hstep := t.charged_tryAcquire units now
    rw [if_pos hyes] at hstep
    refine ⟨(t.tryAcquire units now).1, rfl, fun h => absurd h (Nat.succ_ne_zero n),
      fun _ hahead => ?_, fun hpast => ?_⟩
    · rw [Nat.succ_mul]
      by_cases hn : n = 0
      · subst hn
        obtain ⟨count, hcount, hsum⟩ := hstep
        rw [hbegun (hidle rfl)] at hcount hsum
        exact ⟨count, hcount, by omega⟩
      · exact (hcharged hn hahead).trans hstep hahead
    · have hsame := hover hpast
      rw [RateLimiter.rollOver_tryAcquire t units now (by rwa [hsame]), hsame]
  have hrefuse : ∀ n g, R n g → (g.acquire (O := O) units now).1 ≠ none →
      R n (g.acquire (O := O) units now).2.1 := by
    rintro n _ ⟨t, rfl, hidle, hcharged, hover⟩ hanswer
    have hno : ¬ (t.tryAcquire units now).2 = true := by
      intro hyes
      rw [Gate.acquire] at hanswer
      dsimp only at hanswer
      rw [if_pos hyes] at hanswer
      exact hanswer rfl
    have hsame : (t.tryAcquire units now).1 = t.rollOver now := by
      rw [RateLimiter.tryAcquire_fst, if_neg hno, UInt64.add_zero]
    refine ⟨(t.tryAcquire units now).1, rfl, fun hn => ?_, fun hn hahead => ?_, fun hpast => ?_⟩
    · rw [hsame, hbegun (hidle hn)]
      exact Or.inr rfl
    · rw [hsame, (hcharged hn hahead).rollOver hahead]
      exact hcharged hn hahead
    · rw [hsame, RateLimiter.rollOver_rollOver]
      exact hover hpast
  have hkept : ∀ n g, R n g → (g.releaseUnused (O := O) units now).1 = g := by
    rintro n _ ⟨t, rfl, -⟩
    rfl
  obtain ⟨_, ht, t, rfl, hidle, hcharged, hover⟩ :=
    exists_refused (R := R) hgrant hrefuse hkept h hg
    ⟨l, rfl, fun _ => Or.inl rfl, fun h => absurd rfl h, fun _ => rfl⟩
  refine ⟨t, ht, fun hi => hidle (List.count_eq_zero.mpr hi), fun hi => hcharged ?_, hover⟩
  exact Nat.ne_of_gt (List.count_pos_iff.mpr hi)

/-- A circuit breaker after a refused request: if it was open and let the request through, it was
tested by it. -/
theorem breaker_refused {why : Rejection} {m : Nat} {b : CircuitBreaker}
    (h : Refused O units now granted c reason gates after)
    (hg : gates[i]? = some (.breaker why m b)) :
    after[i]? = some (.breaker why m
      (if b.state = .opened ∧ i ∈ granted then { b with lastTested := now } else b)) := by
  let tested (n : Nat) : CircuitBreaker :=
    if b.state = .opened ∧ n ≠ 0 then { b with lastTested := now } else b
  have hstate (n : Nat) : (tested n).state = b.state := by
    dsimp only [tested]
    split <;> rfl
  have hasked (b : CircuitBreaker) : (Gate.breaker why m b).acquire (O := O) units now =
      (if b.admits now then none else some why,
        .breaker why m (b.serve (.acquire now : BreakerCall O)),
        (b.acquire (O := O) (R := Rejection) now).2.2.map .diagnostic) := by
    rw [← CircuitBreaker.acquire_eq_admits (O := O) (R := Rejection)]
    rfl
  have hgrant : ∀ (n : Nat) (g : Gate), g = .breaker why m (tested n) →
      (g.acquire (O := O) units now).1 = none →
      (g.acquire (O := O) units now).2.1 = .breaker why m (tested (n + 1)) := by
    rintro n _ rfl hanswer
    rw [hasked] at hanswer ⊢
    have hyes : (tested n).admits now = true := by
      by_contra hno
      dsimp only at hanswer
      rw [if_neg hno] at hanswer
      cases hanswer
    dsimp only
    rw [CircuitBreaker.serve_acquire, hstate]
    congr 1
    by_cases hopened : b.state = .opened
    · have hnext : tested (n + 1) = { b with lastTested := now } :=
        if_pos ⟨hopened, Nat.succ_ne_zero n⟩
      rw [if_pos ⟨hopened, hyes⟩, hnext]
      dsimp only [tested]
      split <;> rfl
    · rw [if_neg fun h => hopened h.1]
      dsimp only [tested]
      rw [if_neg fun h => hopened h.1, if_neg fun h => hopened h.1]
  have hrefuse : ∀ (n : Nat) (g : Gate), g = .breaker why m (tested n) →
      (g.acquire (O := O) units now).1 ≠ none →
      (g.acquire (O := O) units now).2.1 = .breaker why m (tested n) := by
    rintro n _ rfl hanswer
    rw [hasked] at hanswer ⊢
    have hno : ¬ (tested n).admits now = true := fun hyes => hanswer (if_pos hyes)
    dsimp only
    rw [CircuitBreaker.serve_acquire, if_neg fun h => hno h.2]
  have hkept : ∀ (n : Nat) (g : Gate), g = .breaker why m (tested n) →
      (g.releaseUnused (O := O) units now).1 = g := by
    rintro n _ rfl
    rfl
  obtain ⟨_, ht, rfl⟩ :=
    exists_refused (R := fun n g => g = .breaker why m (tested n)) hgrant hrefuse
    hkept h hg (congrArg (Gate.breaker why m) (if_neg fun h => h.2 rfl).symm)
  have hcount : granted.count i ≠ 0 ↔ i ∈ granted := by
    rw [← Nat.pos_iff_ne_zero, List.count_pos_iff]
  rw [ht]
  simp only [tested, hcount]

end Chain

namespace GuardRail

variable {rail : GuardRail Nat O Rejection} {plant : Plant (Array Gate) O Rejection}
    {units now : UInt64}
  {reason : Rejection}

/-- **What a refused request leaves behind.** The components before the one that refuses had granted
the request. Whichever it is that refuses, afterwards

* every semaphore is as it was;
* a rate limiter that had not granted the request is as it was, but for a period that was over, and
  one that had granted it counts the units in its period, as often as it had granted them (at a time
  that has no period, nothing stays counted);
* every circuit breaker is as it was, but for an open one that had let the request through as its
  probe and was tested by it. -/
theorem refused_leaves (h : (rail.acquire units now plant).1 = some reason) :
    ∃ granted c rest, rail.chain = granted ++ c :: rest ∧
      (Chain.acquire (O := O) (R := Rejection) units now granted plant.components).1 = none ∧
      (Chain.acquire (O := O) units now (granted ++ [c]) plant.components).1 = some (reason, c) ∧
      (∀ (i : Nat) name why s, plant.components[i]? = some (.semaphore name why s) →
        (rail.acquire units now plant).2.2.components[i]? = some (.semaphore name why s)) ∧
      (∀ (i : Nat) name why l, plant.components[i]? = some (.limiter name why l) →
        ∃ t, (rail.acquire units now plant).2.2.components[i]? = some (.limiter name why t) ∧
          (i ∉ granted → t = l ∨ t = l.rollOver now) ∧
          (i ∈ granted → now < (l.rollOver now).deadline →
            l.Charged now (granted.count i * units.toNat) t) ∧
          ((l.rollOver now).deadline ≤ now → t.rollOver now = l.rollOver now)) ∧
      (∀ (i : Nat) why m b, plant.components[i]? = some (.breaker why m b) →
        (rail.acquire units now plant).2.2.components[i]? = some (.breaker why m
          (if b.state = .opened ∧ i ∈ granted then { b with lastTested := now } else b))) := by
  obtain ⟨hanswer, hcomponents⟩ := rail.acquire_components units now plant
  rw [h] at hanswer
  obtain ⟨⟨r, c⟩, hrefused, rfl⟩ := Option.map_eq_some_iff.mp hanswer.symm
  obtain ⟨granted, rest, hchain, hparts⟩ := Chain.exists_refused_of_acquire hrefused
  rw [← hcomponents] at hparts
  refine ⟨granted, c, rest, hchain, ?_, hparts.acquire_concat, ?_, ?_, ?_⟩
  · obtain ⟨mid, asked, _, _, hgranted, -⟩ := hparts
    rw [hgranted]
  · intro i name why s hs
    have hkept := Chain.acquire_semaphore (O := O) units now rail.chain hs
    rw [hcomponents]
    generalize Chain.acquire (O := O) (R := Rejection) units now rail.chain plant.components =
      answer
      at hrefused hkept
    obtain ⟨_ | refusal, after, told⟩ := answer
    · cases hrefused
    · exact hkept
  · intro i name why l hl
    exact Chain.limiter_refused hparts hl
  · intro i why m b hb
    exact Chain.breaker_refused hparts hb

/-! ## A full semaphore at the end of a chain -/

/-- An open circuit, two rate limiters of five units in ten nanoseconds, and a single permit. -/
def crowdedGates : Array Gate :=
  #[.breaker .circuitOpen 0
      { name := "circuit"
        config := { backoffPeriodMillis := 1 }
        state := .opened
        health := { trailing := .ofMillis 1000, refreshInterval := 0 } },
    .limiter "outer" .rateLimited ⟨5, 10, 0, 10⟩,
    .semaphore "permits" .maxConcurrency ⟨1, 1⟩,
    .limiter "inner" .rateLimited ⟨5, 10, 3, 10⟩]

/-- A plant with these gates. -/
def crowdedPlant : Plant (Array Gate) ActionResult Rejection where
  components := crowdedGates
  results := #[]
  rollingLatencies := #[]
  intervalLatencies := #[]
  notes := []

/-- A guard rail over some of these gates. -/
def crowdedRail (chain : List Nat) : GuardRail Nat ActionResult Rejection where
  name := "crowded"
  chain
  observers := []
  results := 0
  rollingLatency := none
  intervalLatency := none
  rejections := .empty ⟨5, 200000000, 0, by decide, by decide⟩

/-- Two units are refused by the single permit, after the open circuit has let them through and the
first limiter has counted them in a new period. The permit and the second limiter are as they
were. -/
theorem refused_leaves_probed :
    let left := ((crowdedRail [0, 1, 2, 3]).acquire 2 2000000 crowdedPlant).2.2.components
    ((crowdedRail [0, 1, 2, 3]).acquire 2 2000000 crowdedPlant).1 = some .maxConcurrency ∧
      (∃ m b, left[0]? = some (.breaker .circuitOpen m b) ∧ b.lastTested = 2000000) ∧
      left[1]? = some (.limiter "outer" .rateLimited ⟨5, 10, 2, 2000010⟩) ∧
      left[2]? = some (.semaphore "permits" .maxConcurrency ⟨1, 1⟩) ∧
      (∃ t, left[3]? = some (.limiter "inner" .rateLimited t) ∧
        (t = ⟨5, 10, 3, 10⟩ ∨ t = ⟨5, 10, 0, 2000010⟩)) := by
  intro left
  have hrefused : ((crowdedRail [0, 1, 2, 3]).acquire 2 2000000 crowdedPlant).1 =
      some .maxConcurrency := by decide +kernel
  obtain ⟨granted, c, rest, hchain, hgranted, hfirst, hsemaphores, hlimiters, hbreakers⟩ :=
    refused_leaves hrefused
  -- The permit, which is the third in the chain, is the first to refuse.
  have hsplit : granted = [0, 1] := by
    rcases granted with _ | ⟨a, _ | ⟨b, _ | ⟨d, _ | ⟨e, more⟩⟩⟩⟩
    · cases hchain
      exact absurd hfirst (by decide +kernel)
    · cases hchain
      exact absurd hfirst (by decide +kernel)
    · cases hchain
      rfl
    · cases hchain
      exact absurd hgranted (by decide +kernel)
    · simp [crowdedRail] at hchain
  subst hsplit
  refine ⟨hrefused, ⟨0, _, hbreakers 0 _ _ _ rfl, ?_⟩, ?_, hsemaphores 2 _ _ _ rfl, ?_⟩
  · rfl
  · obtain ⟨t, ht, -, hcharged, -⟩ := hlimiters 1 _ _ _ rfl
    obtain ⟨count, rfl, hcount⟩ := hcharged (by decide) (by decide)
    have htwo : count = 2 := UInt64.toNat_inj.mp hcount
    rw [htwo] at ht
    exact ht
  · obtain ⟨t, ht, hidle, -⟩ := hlimiters 3 _ _ _ rfl
    exact ⟨t, ht, hidle (by decide)⟩

/-- Two units that a single permit refuses stay counted in a new rate limiter before it. -/
theorem refused_not_restored :
    RateLimiter.make 5 ⟨10⟩ 0 = .ok ⟨5, 10, 0, 10⟩ ∧ Semaphore.make 1 = .ok ⟨1, 1⟩ ∧
      ((crowdedRail [1, 2]).acquire 2 0 crowdedPlant).1 = some .maxConcurrency ∧
      ¬ ∀ i ∈ [1, 2], ∀ g g', crowdedPlant.components[i]? = some g →
        ((crowdedRail [1, 2]).acquire 2 0 crowdedPlant).2.2.components[i]? = some g' →
        g.Restored 0 g' := by
  refine ⟨rfl, rfl, by decide +kernel, fun hrestored => ?_⟩
  have hcount : (2 : UInt64) = 0 := hrestored 1 (by decide) _ _ rfl rfl
  exact absurd hcount (by decide)

end GuardRail

end Admission
