import Admission.Proofs.Rail.Conservation

/-!
# What operations on a guard rail leave behind

An operation is carried out to its end, with the return of permits and the callbacks that a
completion brings about. What it leaves behind can be told in full as long as nobody is called back:
the bench after what the guard rail does, and the notes of it in the log. Besides, timeout services
that have lost their names are stopped, which has nothing to do with guard rails.

## Main definitions

* `callLog`: a log without the reports that services were stopped
* `World.Alike`: two worlds that differ at most in services and these reports
* `World.collected`: a world with a bench whose notes are in the log

## Main results

* `World.perform_acquire`, `World.perform_release`, `World.perform_releaseUnused`: by hand
* `World.perform_railPromise`, `World.perform_railCompletable`: requests whose permits are taken
  over
* `World.perform_settle`, `World.perform_complete`: the completion that returns them
* `World.perform_settle_done`, `World.perform_complete_done`: further attempts
-/

namespace Admission.Scenario

variable {O : Type} [Outcome O]

/-! ## Worlds up to services -/

/-- Whether an entry of the log is anything but the report that a service was stopped. -/
def Entry.isCall : Entry O → Bool
  | .note (.diagnostic (.serviceStopped _)) => false
  | _ => true

/-- A log without the reports that services were stopped. -/
def callLog (log : List (Entry O)) : List (Entry O) := log.filter Entry.isCall

omit [Outcome O] in
theorem callLog_append (log more : List (Entry O)) :
    callLog (log ++ more) = callLog log ++ callLog more :=
  List.filter_append ..

namespace World

/-- Two worlds that differ at most in services and in the reports that services were stopped. -/
structure Alike (v w : World O) : Prop where
  bench : v.bench = w.bench
  promises : v.promises = w.promises
  completables : v.completables = w.completables
  log : callLog v.log = callLog w.log

variable {u v w : World O}

theorem Alike.refl (w : World O) : w.Alike w := ⟨rfl, rfl, rfl, rfl⟩

theorem Alike.symm (h : v.Alike w) : w.Alike v :=
  ⟨h.bench.symm, h.promises.symm, h.completables.symm, h.log.symm⟩

theorem Alike.trans (h : u.Alike v) (h' : v.Alike w) : u.Alike w :=
  ⟨h.bench.trans h'.bench, h.promises.trans h'.promises, h.completables.trans h'.completables,
    h.log.trans h'.log⟩

/-- A world with another bench, whose notes go to the log. -/
def collected (w : World O) (b : Bench O) : World O :=
  { w with bench := { b with plant := { b.plant with notes := [] } } }.note
    (b.plant.notes.map .note)

theorem findRail_congr (hnames : v.bench.names = w.bench.names) {rail : String} :
    v.findRail rail = w.findRail rail := by
  rw [findRail, findRail, Bench.find, Bench.find, Bench.lookup, Bench.lookup, hnames]

theorem Alike.collected (h : v.Alike w) (b : Bench O) : (v.collected b).Alike (w.collected b) :=
  ⟨rfl, h.promises, h.completables, by
    simp only [World.collected, World.note, callLog_append, h.log]⟩

theorem Alike.storePromise (h : v.Alike w) (k : Nat) (p : ScenarioPromise O) :
    (v.storePromise k p).Alike (w.storePromise k p) :=
  ⟨h.bench, by simp only [World.storePromise, h.promises], h.completables, h.log⟩

end World

namespace Machine

variable {m : Machine O}

theorem alike_tell_stopped (m : Machine O) (service : String) :
    (m.tell [.diagnostic (.serviceStopped service)]).world.Alike m.world := by
  refine ⟨rfl, rfl, rfl, ?_⟩
  rw [tell, World.note]
  cases m.isUnheard
  · exact (callLog_append _ _).trans (List.append_nil _)
  · exact congrArg callLog (List.append_nil _)

/-- Retirement stops services and reports it. -/
theorem alike_retire (m : Machine O) : m.retire.world.Alike m.world := by
  unfold retire
  generalize m.world.services.size = n
  induction n with
  | zero => exact .refl _
  | succ n ih =>
    rw [Nat.fold_succ]
    generalize Nat.fold n _ m = retired at ih ⊢
    split
    · split
      · exact (alike_tell_stopped _ _).trans ⟨ih.bench, ih.promises, ih.completables, ih.log⟩
      · exact ih
    · exact ih

/-- Outside of services every note is heard. -/
theorem collect_eq (h : m.isUnheard = false) (b : Bench O) :
    m.collect b = { m with world := m.world.collected b } := by
  rw [collect, tell]
  dsimp only
  rw [List.filter_eq_self.mpr ?_]
  · rfl
  · intro note _
    cases note with
    | diagnostic event => exact congrArg (!·) h
    | _ => rfl

/-- The run of an agenda begins with its first entry. -/
theorem run_cons (w : World O) (work : Work O) (rest : List (Work O)) (last : Reply O) :
    ({ world := w, agenda := work :: rest, last } : Machine O).run =
      (perform { world := w, agenda := rest, last } work).run :=
  (run_step (m := { world := w, agenda := work :: rest, last }) (List.cons_ne_nil _ _)).symm

end Machine

namespace World

variable {w : World O} {rail : String} {i : Nat} {units now : UInt64}

/-- A command that ends with what it starts, up to the services that are retired. -/
theorem perform_of_start {c : Command O} {reply : Reply O} {v : World O}
    (h : ({ world := w, agenda := [] } : Machine O).start c =
      { world := v, agenda := [], last := reply }) :
    (w.perform c).1 = reply ∧ (w.perform c).2.Alike v := by
  rw [perform_of_agenda_eq_nil h rfl]
  exact ⟨rfl, Machine.alike_retire _⟩

/-! ## By hand -/

theorem perform_acquire (hrail : w.findRail rail = .ok i) (units now : UInt64) :
    (w.perform (.bench (.rail (.acquire rail units now)))).1 =
        .ok (.refusal (w.bench.acquireFrom i units now).1) ∧
      (w.perform (.bench (.rail (.acquire rail units now)))).2.Alike
        (w.collected (w.bench.acquireFrom i units now).2) := by
  refine perform_of_start ?_
  rw [Machine.start_acquire, hrail, Machine.withFound, Machine.collect_eq rfl]
  rfl

theorem perform_release (hrail : w.findRail rail = .ok i) (units : UInt64) (outcome : O)
    (start now : UInt64) :
    (w.perform (.bench (.rail (.release rail units outcome start now)))).1 = .ok .nothing ∧
      (w.perform (.bench (.rail (.release rail units outcome start now)))).2.Alike
        (w.collected (w.bench.releaseTo i units outcome start now)) := by
  refine perform_of_start ?_
  rw [Machine.start_release, hrail, Machine.withFound, Machine.collect_eq rfl]
  rfl

theorem perform_releaseUnused (hrail : w.findRail rail = .ok i) {r : PlacedRail O}
    (hr : w.bench.rails[i]? = some r) (units now : UInt64) :
    (w.perform (.bench (.rail (.releaseUnused rail units now)))).1 = .ok .nothing ∧
      (w.perform (.bench (.rail (.releaseUnused rail units now)))).2.Alike
        (w.collected { w.bench with plant := r.rail.releaseUnused units now w.bench.plant }) := by
  refine perform_of_start ?_
  rw [Machine.start_releaseUnused, hrail, Machine.withFound]
  dsimp only
  rw [hr]
  dsimp only
  rw [Machine.collect_eq rfl]
  rfl

/-! ## Permits that are taken over -/

/-- A request whose permits something takes over, if they are granted. -/
theorem perform_withPermits (hrail : w.findRail rail = .ok i) {c : Command O}
    (take : Permits (Release O) → World O → World O)
    (hc : ({ world := w, agenda := [] } : Machine O).start c =
      ({ world := w, agenda := [] } : Machine O).withPermits rail units now false take) :
    (w.perform c).1 = .ok (.refusal (w.bench.acquireFrom i units now).1) ∧
      (w.perform c).2.Alike
        (match w.bench.acquireFrom i units now with
          | (none, b) => take ⟨units, now, .rail i⟩ (w.collected b)
          | (some _, b) => w.collected b) := by
  refine perform_of_start ?_
  rw [hc, Machine.withPermits_eq, hrail, Machine.withFound]
  dsimp only
  rcases w.bench.acquireFrom i units now with ⟨_ | r, b⟩
  · dsimp only
    rw [Machine.collect_eq rfl]
    rfl
  · dsimp only
    rw [Machine.collect_eq rfl]
    rfl

theorem perform_railPromise (hrail : w.findRail rail = .ok i) (units now : UInt64) (as : String) :
    (w.perform (.railPromise rail units now as false)).1 =
        .ok (.refusal (w.bench.acquireFrom i units now).1) ∧
      (w.perform (.railPromise rail units now as false)).2.Alike
        (match w.bench.acquireFrom i units now with
          | (none, b) => (w.collected b).addPromise as (some ⟨units, now, .rail i⟩)
          | (some _, b) => w.collected b) :=
  perform_withPermits hrail (fun permits w => w.addPromise as (some permits)) rfl

theorem perform_railCompletable (hrail : w.findRail rail = .ok i) (units now : UInt64)
    (as : String) :
    (w.perform (.railCompletable rail units now as false)).1 =
        .ok (.refusal (w.bench.acquireFrom i units now).1) ∧
      (w.perform (.railCompletable rail units now as false)).2.Alike
        (match w.bench.acquireFrom i units now with
          | (none, b) => (w.collected b).addCompletable as (some ⟨units, now, .rail i⟩)
          | (some _, b) => w.collected b) :=
  perform_withPermits hrail (fun permits w => w.addCompletable as (some permits)) rfl

/-! ## Completions -/

/-- A world after permits were returned to the guard rail at a place, at the time of its clock. -/
def returned (w : World O) (i : Nat) (permits : Option (Permits (Release O))) (outcome : O) :
    World O :=
  match permits with
  | some p => w.collected (w.bench.releaseTo i p.units outcome p.start (w.releaseTime (.rail i)))
  | none => w

/-- It makes no difference whether permits go back before or after a completion is kept. -/
theorem returned_storePromise (w : World O) (i : Nat) (permits : Option (Permits (Release O)))
    (outcome : O) (k : Nat) (p : ScenarioPromise O) :
    (w.storePromise k p).returned i permits outcome =
      (w.returned i permits outcome).storePromise k p := by
  cases permits <;> rfl

theorem returned_storeCompletable (w : World O) (i : Nat) (permits : Option (Permits (Release O)))
    (outcome : O) (completables : Array (ScenarioCompletable O)) :
    ({ w with completables } : World O).returned i permits outcome =
      { w.returned i permits outcome with completables } := by
  cases permits <;> rfl

theorem Alike.returned {v w : World O} (h : v.Alike w) (i : Nat)
    (permits : Option (Permits (Release O))) (outcome : O) :
    (v.returned i permits outcome).Alike (w.returned i permits outcome) := by
  cases permits with
  | none => exact h
  | some p =>
    simp only [World.returned, releaseTime, h.bench]
    exact h.collected _

/-- A promise that was completed and called nobody back. -/
def finish (p : ScenarioPromise O) (c : Completion O) : ScenarioPromise O :=
  { p with result := some c, drained := true }

/-- Permits that are due go back to the guard rail first. -/
theorem run_release {v : World O} (holder : Holder) {permits : Option (Permits (Release O))}
    (hrail : ∀ q, permits = some q → q.release = .rail i) {rest : List (Work O)} {last : Reply O}
    (hheard : ({ world := v, agenda := rest, last } : Machine O).isUnheard = false) (outcome : O) :
    ({ world := v, agenda := (permits.map fun p => Work.release holder p outcome).toList ++ rest,
        last } : Machine O).run =
      ({ world := v.returned i permits outcome, agenda := rest, last } : Machine O).run := by
  cases permits with
  | none => rfl
  | some p =>
    obtain ⟨units, start, release⟩ := p
    obtain rfl : release = .rail i := hrail _ rfl
    rw [Option.map_some, Option.toList_some, List.singleton_append, Machine.run_cons,
      Machine.perform, Machine.returnPermits]
    dsimp only
    rw [Machine.collect_eq hheard]
    rfl

theorem promises_returned (v : World O) (permits : Option (Permits (Release O))) (outcome : O) :
    (v.returned i permits outcome).promises = v.promises := by
  cases permits <;> rfl

theorem storePromise_self {v : World O} {k : Nat} {p : ScenarioPromise O}
    (h : v.promises[k]? = some p) : v.storePromise k p = v := by
  obtain ⟨hk, rfl⟩ := Array.getElem?_eq_some_iff.mp h
  rw [storePromise, Array.setIfInBounds_def, dif_pos hk, Array.set_getElem_self hk]

/-- What follows the completion of a promise without callbacks: its permits go back, nobody is
woken, and nobody is called. -/
theorem run_afterSettle {v : World O} {k : Nat} {p : ScenarioPromise O} {c : Completion O}
    (hp : v.promises[k]? = some { p with result := some c }) (hplain : Machine.Plain i p)
    (reply last : Reply O) :
    ({ world := v, agenda := Machine.afterSettle k p.permits c ++ [.reply reply], last } :
        Machine O).run =
      { world := (v.returned i p.permits c.outcome).storePromise k (finish p c), agenda := [],
        last := reply } := by
  have hreturned := (congrArg (·[k]?) (promises_returned v (i := i) p.permits c.outcome)).trans hp
  rw [Machine.afterSettle, List.append_assoc, run_release _ hplain.permits rfl]
  generalize v.returned i p.permits c.outcome = v at hreturned ⊢
  -- No waker is left in the place of the promise, and no callback.
  obtain ⟨permits, result, wakers, listeners, links, drained⟩ := p
  obtain ⟨-, rfl, rfl, rfl⟩ := hplain
  have hwakers :
    Machine.perform { world := v, agenda := [.drain k, .reply reply], last } (.wakeAll k) =
      { world := v, agenda := [.drain k, .reply reply], last } := by
    rw [Machine.perform, hreturned]
    exact congrArg (fun u => ({ world := u, agenda := [.drain k, .reply reply], last } : Machine O))
      (storePromise_self hreturned)
  have hcallbacks : Machine.perform { world := v, agenda := [.reply reply], last } (.drain k) =
      { world := v.storePromise k ⟨permits, some c, [], [], [], true⟩, agenda := [.reply reply],
        last } := by
    rw [Machine.perform, hreturned]
    rfl
  rw [List.cons_append, List.cons_append, List.nil_append, Machine.run_cons, hwakers,
    Machine.run_cons, hcallbacks, Machine.run_cons]
  exact Machine.run_of_agenda_eq_nil rfl

/-- A command whose run goes on after retirement. What the run makes of a world must not depend on
services. -/
theorem perform_of_run {c : Command O} {v : World O} {agenda : List (Work O)} {reply : Reply O}
    (finished : World O → World O)
    (hstart : ({ world := w, agenda := [] } : Machine O).start c = { world := v, agenda })
    (hrun : ∀ u, u.Alike v → ({ world := u, agenda } : Machine O).run =
      { world := finished u, agenda := [], last := reply })
    (hfinished : ∀ u, u.Alike v → (finished u).Alike (finished v)) :
    (w.perform c).1 = reply ∧ (w.perform c).2.Alike (finished v) := by
  have halike := Machine.alike_retire ({ world := v, agenda } : Machine O)
  have hretire : ({ world := v, agenda } : Machine O).retire =
      { world := ({ world := v, agenda } : Machine O).retire.world, agenda } := by
    obtain ⟨services, log, h⟩ := Machine.retire_eq ({ world := v, agenda } : Machine O)
    rw [h]
  rw [perform_eq, hstart, hretire, hrun _ halike]
  exact ⟨rfl, hfinished _ halike⟩

/-- **A completion of a pending promise** that calls nobody back. -/
theorem perform_settle {id : String} {k : Nat} {p : ScenarioPromise O}
    (hid : w.findPromise id = .ok k)
    (hp : w.promises[k]? = some p) (hpending : p.result = none) (hplain : Machine.Plain i p)
    (c : Completion O) :
    (w.perform (.settle id c)).1 = .ok (.truth true) ∧
      (w.perform (.settle id c)).2.Alike
        ((w.returned i p.permits c.outcome).storePromise k (finish p c)) := by
  have hk : k < w.promises.size := (Array.getElem?_eq_some_iff.mp hp).1
  have hstored : (w.storePromise k { p with result := some c }).promises[k]? =
      some { p with result := some c } := Array.getElem?_setIfInBounds_self_of_lt hk
  -- The permits go back after the completion is kept, which makes no difference to the guard rail.
  have hsame : (w.returned i p.permits c.outcome).storePromise k (finish p c) =
      ((w.storePromise k { p with result := some c }).returned i p.permits c.outcome).storePromise k
        (finish p c) := by
    cases p.permits <;> simp [returned, storePromise, collected, note, releaseTime]
  rw [hsame]
  refine perform_of_run (fun u => (u.returned i p.permits c.outcome).storePromise k (finish p c)) ?_
    (fun u hu => run_afterSettle (hu.promises ▸ hstored) hplain _ _)
    fun u hu => (hu.returned i _ _).storePromise k _
  simp only [Machine.start, hid, Machine.withFound, Machine.settlePromise, settlePromise,
    Machine.push, hp, Promise.settle, hpending, Option.map_some, if_true]
  rfl

/-- **A completion of a pending completable.** -/
theorem perform_complete {id : String} {k : Nat} {p : ScenarioCompletable O}
    (hid : w.findCompletable id = .ok k) (hp : w.completables[k]? = some p)
    (hpending : p.isDone = false) (hrelease : ∀ q, p.permits = some q → q.release = .rail i)
    (c : Completion O) :
    (w.perform (.complete id c)).1 = .ok (.truth true) ∧
      (w.perform (.complete id c)).2.Alike
        { w.returned i p.permits c.outcome with
          completables := w.completables.setIfInBounds k { p with status := c.status } } := by
  have hsame : ({ w.returned i p.permits c.outcome with
      completables := w.completables.setIfInBounds k { p with status := c.status } } : World O) =
      returned { w with
        completables := w.completables.setIfInBounds k { p with status := c.status } }
        i p.permits c.outcome := by
    cases p.permits <;> rfl
  rw [hsame]
  have hrun (u : World O) : ({ world := u, agenda := (p.permits.map fun q =>
        Work.release (.completable k) q c.outcome).toList ++ [.reply (.ok (.truth true))] } :
        Machine O).run =
      ({ world := u.returned i p.permits c.outcome, agenda := [.reply (.ok (.truth true))] } :
        Machine O).run :=
    run_release (.completable k) hrelease rfl c.outcome
  refine perform_of_run (fun u => u.returned i p.permits c.outcome) ?_ (fun u _ =>
    (hrun u).trans ?_)
    fun u hu => hu.returned i _ _
  · simp only [Machine.start, hid, Machine.withFound, Machine.settleCompletable, settleCompletable,
      Machine.push, hp, Completable.settle, hpending]
    rfl
  · rw [Machine.run_cons]
    exact Machine.run_of_agenda_eq_nil rfl

/-- Further attempts to complete a promise find it completed. -/
theorem perform_settle_done {id : String} {k : Nat} (hid : w.findPromise id = .ok k)
    (hdone : ¬ w.IsPending (.promise k)) (c : Completion O) :
    (w.perform (.settle id c)).1 = .ok (.truth false) ∧ (w.perform (.settle id c)).2.Alike w := by
  refine perform_of_start ?_
  have hlost := Machine.settle_of_not_isPending
    (m := ({ world := w, agenda := [] } : Machine O).push [.reply (.ok (.truth true))])
    (h := .promise k) hdone c
  rw [Machine.settle] at hlost
  simp only [Machine.start, hid, Machine.withFound, hlost]
  rfl

/-- Further attempts to complete a completable find it completed. -/
theorem perform_complete_done {id : String} {k : Nat} (hid : w.findCompletable id = .ok k)
    (hdone : ¬ w.IsPending (.completable k)) (c : Completion O) :
    (w.perform (.complete id c)).1 = .ok (.truth false) ∧
    (w.perform (.complete id c)).2.Alike w := by
  refine perform_of_start ?_
  have hlost := Machine.settle_of_not_isPending
    (m := ({ world := w, agenda := [] } : Machine O).push [.reply (.ok (.truth true))])
    (h := .completable k) hdone c
  rw [Machine.settle] at hlost
  simp only [Machine.start, hid, Machine.withFound, hlost]
  rfl

end World

end Admission.Scenario
