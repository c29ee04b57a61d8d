import Admission.Scenario.Machine

/-!
# Who holds permits

Promises and completables hold permits alike, and alike they are completed: the first attempt finds
them pending, keeps the completion and puts the return of the permits on the agenda, and every later
attempt finds them settled and does nothing.

## Main definitions

* `Standing`, `World.standing?`: the permits, the status and the result of a holder
* `World.IsPending`, `World.IsSettled`: whether a holder can still be completed
* `Machine.settle`: an attempt to complete a holder
* `Holder.followUp`: what follows its completion

## Main results

* `Machine.settle_of_isPending`, `Machine.settle_of_not_isPending`: what an attempt does
* `standing?_addPromise`, `standing?_modifyPromise`, …: what leaves all holders alone
-/

namespace Admission.Scenario

variable {O : Type}

/-- What can be asked about a holder of permits. A completable keeps no result. -/
structure Standing (O : Type) where
  permits : Option (Permits (Release O))
  status : Status
  result : Option (Completion O)

/-- The standing of a pending holder. -/
def Standing.pending (permits : Option (Permits (Release O))) : Standing O :=
  ⟨permits, .pending, none⟩

/-- The standing of a holder after a completion. -/
def Holder.settled (h : Holder) (permits : Option (Permits (Release O))) (c : Completion O) :
    Standing O :=
  match h with
  | .promise _ => ⟨permits, c.status, some c⟩
  | .completable _ => ⟨permits, c.status, none⟩

theorem status_settled_ne (h : Holder) (permits : Option (Permits (Release O))) (c : Completion O) :
    (h.settled permits c).status ≠ .pending := by
  have hc : c.status ≠ .pending := by cases c <;> exact Status.noConfusion
  cases h with
  | promise i => exact hc
  | completable i => exact hc

variable [Outcome O]

/-- What follows the completion of a holder: the return of its permits, then the callbacks. -/
def Holder.followUp (h : Holder) (permits : Option (Permits (Release O))) (c : Completion O) :
    List (Work O) :=
  (permits.map fun p => Work.release h p c.outcome).toList ++
    match h with
    | .promise i => [.wakeAll i, .drain i]
    | .completable _ => []

/-- The standing of a promise. -/
def promiseStanding (p : ScenarioPromise O) : Standing O := ⟨p.permits, p.status, p.result⟩

/-- The standing of a completable. -/
def completableStanding (k : ScenarioCompletable O) : Standing O := ⟨k.permits, k.status, none⟩

namespace World

variable {w : World O}

/-- The standing of a holder. -/
def standing? (w : World O) : Holder → Option (Standing O)
  | .promise i => w.promises[i]?.map promiseStanding
  | .completable i => w.completables[i]?.map completableStanding

/-- Whether a holder waits for its completion. -/
def IsPending (w : World O) (h : Holder) : Prop :=
  ∃ permits, w.standing? h = some (.pending permits)

/-- Whether a holder was completed. -/
def IsSettled (w : World O) (h : Holder) : Prop := ∃ s, w.standing? h = some s ∧ s.status ≠ .pending

theorem IsPending.not_isSettled {h : Holder} (hp : w.IsPending h) : ¬ w.IsSettled h := by
  obtain ⟨permits, hp⟩ := hp
  rintro ⟨s, hs, hne⟩
  rw [hp] at hs
  cases hs
  exact hne rfl

theorem isPending_promise_iff {i : Nat} :
    w.IsPending (.promise i) ↔ ∃ p, w.promises[i]? = some p ∧ p.result = none := by
  constructor
  · rintro ⟨permits, h⟩
    obtain ⟨p, hp, hps⟩ := Option.map_eq_some_iff.mp h
    exact ⟨p, hp, congrArg Standing.result hps⟩
  · rintro ⟨p, hp, hn⟩
    refine ⟨p.permits, Option.map_eq_some_iff.mpr ⟨p, hp, ?_⟩⟩
    rw [promiseStanding, Standing.pending, Promise.status, hn]

theorem isPending_completable_iff {i : Nat} :
    w.IsPending (.completable i) ↔ ∃ k, w.completables[i]? = some k ∧ k.isDone = false := by
  have hdone (k : ScenarioCompletable O) : k.isDone = false ↔ k.status = .pending := by
    simp [Completable.isDone, Status.isTerminal]
  constructor
  · rintro ⟨permits, h⟩
    obtain ⟨k, hk, hks⟩ := Option.map_eq_some_iff.mp h
    exact ⟨k, hk, (hdone k).mpr (congrArg Standing.status hks)⟩
  · rintro ⟨k, hk, hd⟩
    refine ⟨k.permits, Option.map_eq_some_iff.mpr ⟨k, hk, ?_⟩⟩
    rw [completableStanding, Standing.pending, (hdone k).mp hd]

/-! ## What leaves the holders alone -/

theorem standing?_congr {v : World O} (hpromises : v.promises = w.promises)
    (hcompletables : v.completables = w.completables) (h : Holder) :
    v.standing? h = w.standing? h := by
  cases h with
  | promise i => rw [standing?, standing?, hpromises]
  | completable i => rw [standing?, standing?, hcompletables]

theorem standing?_modifyPromise {i : Nat} {f : ScenarioPromise O → ScenarioPromise O}
    (hf : ∀ p, promiseStanding (f p) = promiseStanding p) (h : Holder) :
    (w.modifyPromise i f).standing? h = w.standing? h := by
  cases h with
  | completable j => rfl
  | promise j =>
    rw [standing?, standing?, modifyPromise, Array.getElem?_modify]
    split
    · rw [Option.map_map]
      congr 1
      funext p
      exact hf p
    · rfl

theorem standing?_storePromise {i : Nat} {p q : ScenarioPromise O} (hp : w.promises[i]? = some p)
    (h : Holder) :
    (w.storePromise i q).standing? h =
      if h = .promise i then some (promiseStanding q) else w.standing? h := by
  have hi : i < w.promises.size := (Array.getElem?_eq_some_iff.mp hp).1
  cases h with
  | completable j => rfl
  | promise j =>
    rw [standing?, storePromise]
    dsimp only
    by_cases hij : i = j
    · subst hij
      rw [Array.getElem?_setIfInBounds_self_of_lt hi, if_pos rfl]
      rfl
    · rw [Array.getElem?_setIfInBounds_ne hij, if_neg fun e => hij (Holder.promise.inj e).symm]
      rfl

/-- A new holder changes nothing about those that are there already. -/
theorem standing?_addPromise {s : Standing O} {h : Holder}
    (hs : w.standing? h = some s) (id : String)
    (permits : Option (Permits (Release O))) :
    (w.addPromise id permits).standing? h = some s := by
  cases h with
  | completable j => exact hs
  | promise j =>
    rw [standing?, Option.map_eq_some_iff] at hs ⊢
    obtain ⟨p, hp, hps⟩ := hs
    refine ⟨p, ?_, hps⟩
    have hj : j < w.promises.size := (Array.getElem?_eq_some_iff.mp hp).1
    change (w.promises.push _)[j]? = some p
    rw [Array.getElem?_push_lt hj]
    exact (Array.getElem?_eq_getElem hj).symm.trans hp

theorem standing?_addCompletable {s : Standing O} {h : Holder} (hs : w.standing? h = some s)
    (id : String) (permits : Option (Permits (Release O))) :
    (w.addCompletable id permits).standing? h = some s := by
  cases h with
  | promise j => exact hs
  | completable j =>
    rw [standing?, Option.map_eq_some_iff] at hs ⊢
    obtain ⟨p, hp, hps⟩ := hs
    refine ⟨p, ?_, hps⟩
    have hj : j < w.completables.size := (Array.getElem?_eq_some_iff.mp hp).1
    change (w.completables.push _)[j]? = some p
    rw [Array.getElem?_push_lt hj]
    exact (Array.getElem?_eq_getElem hj).symm.trans hp

end World

/-! ## Attempts -/

namespace Machine

variable {m : Machine O}

/-- An attempt to complete a holder, and whether it found the holder pending. -/
def settle (m : Machine O) : Holder → Completion O → Bool × Machine O
  | .promise i, c => m.settlePromise i c
  | .completable i, c => m.settleCompletable i c

/-- **The first attempt wins**: it keeps the completion, leaves all other holders alone, and puts on
the agenda what follows. -/
theorem settle_of_isPending {h : Holder} {permits : Option (Permits (Release O))}
    (hp : m.world.standing? h = some (.pending permits)) (c : Completion O) :
    ∃ w : World O, m.settle h c = (true, { m with world := w }.push (h.followUp permits c)) ∧
      w.bench = m.world.bench ∧
      ∀ k, w.standing? k = if k = h then some (h.settled permits c) else m.world.standing? k := by
  cases h with
  | promise i =>
    obtain ⟨p, hi, hn⟩ := World.isPending_promise_iff.mp ⟨permits, hp⟩
    have hpermits : p.permits = permits := by
      rw [World.standing?, hi] at hp
      exact congrArg Standing.permits (Option.some.inj hp)
    -- The status and the answer of `standing?` are both read off the result.
    refine ⟨m.world.storePromise i { p with result := some c }, ?_, rfl, ?_⟩
    · simp only [settle, settlePromise, World.settlePromise, hi, Promise.settle, hn,
        Option.map_some, ← hpermits]
      rfl
    · intro k
      rw [World.standing?_storePromise hi, ← hpermits]
      rfl
  | completable i =>
    obtain ⟨k, hi, hd⟩ := World.isPending_completable_iff.mp ⟨permits, hp⟩
    have hpermits : k.permits = permits := by
      rw [World.standing?, hi] at hp
      exact congrArg Standing.permits (Option.some.inj hp)
    have hlt : i < m.world.completables.size := (Array.getElem?_eq_some_iff.mp hi).1
    refine ⟨{ m.world with
      completables := m.world.completables.setIfInBounds i { k with status := c.status } },
      ?_, rfl, ?_⟩
    · simp only [settle, settleCompletable, World.settleCompletable, hi, Completable.settle, hd,
        Option.map_some, ← hpermits, Holder.followUp, List.append_nil, Bool.false_eq_true, if_false]
    · intro l
      cases l with
      | promise j => rfl
      | completable j =>
        rw [World.standing?]
        dsimp only
        by_cases hij : i = j
        · subst hij
          rw [Array.getElem?_setIfInBounds_self_of_lt hlt, if_pos rfl, ← hpermits]
          rfl
        · rw [Array.getElem?_setIfInBounds_ne hij,
            if_neg fun e => hij (Holder.completable.inj e).symm]
          rfl

/-- Every other attempt does nothing. -/
theorem settle_of_not_isPending {h : Holder} (hp : ¬ m.world.IsPending h) (c : Completion O) :
    m.settle h c = (false, m) := by
  cases h with
  | promise i =>
    rw [settle, settlePromise]
    cases hs : m.world.settlePromise i c with
    | none => rfl
    | some v =>
      obtain ⟨p, hi, hn, -⟩ := World.settlePromise_eq_some hs
      exact absurd (World.isPending_promise_iff.mpr ⟨p, hi, hn⟩) hp
  | completable i =>
    rw [settle, settleCompletable]
    cases hs : m.world.settleCompletable i c with
    | none => rfl
    | some v =>
      obtain ⟨k, hi, hd, -⟩ := World.settleCompletable_eq_some hs
      exact absurd (World.isPending_completable_iff.mpr ⟨k, hi, hd⟩) hp

end Machine

end Admission.Scenario
