import Admission.Proofs.Rail.Operations
import Admission.Proofs.Scenario.Names

/-!
# Three ways to hold permits

Permits of a guard rail are held by hand, by a promise or by a completable, and it is all the same
to the guard rail: it decides alike, and after the completion, or a return by hand with its outcome
at the time that the clock reads, it is in one state, having made the same calls to its components
and observers. What a promise or a completable stores of the request is what has to be given back by
hand.

The worlds differ in the names that are given, in the promise and the completable themselves, and in
the services that lose their names to them.

## Main definitions

* `World.AgreesWith`: two worlds with the same bench but for names, and the same calls
* `World.withBench`: a world in which the bench has become another meanwhile
* `World.performAll`: commands one after another
* `World.IsDone`: all further attempts come too late, and change nothing

## Main results

* `World.AgreesWith.releaseTo`: returns keep worlds in agreement
* `World.performAll_of_idle`: commands that change nothing
* `ways_agree`: the three ways
-/

namespace Admission.Scenario

variable {O : Type} [Outcome O]

namespace World

/-! ## Worlds up to names -/

/-- The benches of two worlds are the same but for names, and so are the calls in their logs. -/
structure AgreesWith (v w : World O) : Prop where
  bench : { v.bench with names := w.bench.names } = w.bench
  log : callLog v.log = callLog w.log

variable {u v w : World O}

theorem Alike.agreesWith (h : v.Alike w) : v.AgreesWith w :=
  ⟨by rw [← h.bench], h.log⟩

theorem AgreesWith.trans (h : u.AgreesWith v) (h' : v.AgreesWith w) : u.AgreesWith w :=
  ⟨by rw [← h'.bench, ← h.bench], h.log.trans h'.log⟩

/-- A return makes of one bench what it makes of another that is the same but for names. -/
theorem releaseTo_names (b : Bench O) (names : List (String × Handle)) (i : Nat) (units : UInt64)
    (outcome : O) (start now : UInt64) :
    ({ b with names } : Bench O).releaseTo i units outcome start now =
      { b.releaseTo i units outcome start now with names } := by
  unfold Bench.releaseTo
  dsimp only
  cases b.rails[i]? <;> rfl

theorem AgreesWith.releaseTo (h : v.AgreesWith w) (i : Nat) (units : UInt64) (outcome : O)
    (start now : UInt64) :
    (v.collected (v.bench.releaseTo i units outcome start now)).AgreesWith
      (w.collected (w.bench.releaseTo i units outcome start now)) := by
  have hbench : w.bench.releaseTo i units outcome start now =
      { v.bench.releaseTo i units outcome start now with names := w.bench.names } := by
    rw [← releaseTo_names, h.bench]
  rw [hbench]
  exact ⟨rfl, by simp only [collected, note, callLog_append, h.log]⟩

theorem agreesWith_addPromise (w : World O) (as : String) (permits : Option (Permits (Release O))) :
    (w.addPromise as permits).AgreesWith w :=
  ⟨rfl, rfl⟩

theorem agreesWith_addCompletable (w : World O) (as : String)
    (permits : Option (Permits (Release O))) : (w.addCompletable as permits).AgreesWith w :=
  ⟨rfl, rfl⟩

/-- A world in which the bench has become another meanwhile. The names are those of the world. -/
def withBench (w : World O) (b : Bench O) : World O :=
  { w with bench := { b with names := w.bench.names } }

theorem AgreesWith.withBench (h : v.AgreesWith w) (b : Bench O) :
    (v.withBench b).AgreesWith (w.withBench b) :=
  ⟨rfl, h.log⟩

/-! ## Several commands -/

/-- Carries out commands one after another, and lists their replies. -/
def performAll (w : World O) : List (Command O) → List (Reply O) × World O
  | [] => ([], w)
  | c :: rest =>
    ((w.perform c).1 :: ((w.perform c).2.performAll rest).1, ((w.perform c).2.performAll rest).2)

/-- Commands that change nothing one by one change nothing together. -/
theorem performAll_of_idle {ι : Type} {f : ι → Command O} {reply : Reply O}
    (h : ∀ v : World O, v.Alike w → ∀ a, (v.perform (f a)).1 = reply ∧ (v.perform (f a)).2.Alike v)
    (as : List ι) :
    (w.performAll (as.map f)).1 = as.map (fun _ => reply) ∧
    (w.performAll (as.map f)).2.Alike w := by
  have hall (v : World O) (hv : v.Alike w) : (v.performAll (as.map f)).1 = as.map (fun _ => reply) ∧
      (v.performAll (as.map f)).2.Alike w := by
    induction as generalizing v with
    | nil => exact ⟨rfl, hv⟩
    | cons a as ih =>
      obtain ⟨hreply, halike⟩ := h v hv a
      obtain ⟨hreplies, hlast⟩ := ih _ (halike.trans hv)
      exact ⟨congrArg₂ List.cons hreply hreplies, hlast⟩
  exact hall w (.refl w)

/-! ## Further attempts -/

/-- Whether all further attempts, however many, learn that they come too late, and change
nothing. -/
def IsDone (w : World O) (attempt : Completion O → Command O) : Prop :=
  ∀ cs : List (Completion O),
    (w.performAll (cs.map attempt)).1 = cs.map (fun _ => .ok (.truth false)) ∧
      (w.performAll (cs.map attempt)).2.Alike w

theorem Alike.isPending_iff (h : v.Alike w) (holder : Holder) :
    v.IsPending holder ↔ w.IsPending holder := by
  rw [IsPending, standing?_congr h.promises h.completables holder, IsPending]

theorem isDone_settle {id : String} {k : Nat} (hid : w.findPromise id = .ok k)
    (hdone : ¬ w.IsPending (.promise k)) : w.IsDone (.settle id) := by
  refine performAll_of_idle fun v hv c => ?_
  have hfound : v.findPromise id = .ok k := by rwa [findPromise, hv.bench]
  exact perform_settle_done hfound (mt (hv.isPending_iff _).mp hdone) c

theorem isDone_complete {id : String} {k : Nat} (hid : w.findCompletable id = .ok k)
    (hdone : ¬ w.IsPending (.completable k)) : w.IsDone (.complete id) := by
  refine performAll_of_idle fun v hv c => ?_
  have hfound : v.findCompletable id = .ok k := by rwa [findCompletable, hv.bench]
  exact perform_complete_done hfound (mt (hv.isPending_iff _).mp hdone) c

/-- A promise that was completed is not pending any more. -/
theorem not_isPending_finish (w : World O) (k : Nat) (p : ScenarioPromise O) (c : Completion O) :
    ¬ (w.storePromise k (finish p c)).IsPending (.promise k) := by
  rw [isPending_promise_iff, storePromise]
  rintro ⟨q, hq, hresult⟩
  rw [Array.getElem?_setIfInBounds_self] at hq
  split_ifs at hq
  cases hq
  cases hresult

theorem not_isPending_completed (w : World O) (k : Nat) (p : ScenarioCompletable O)
    (c : Completion O) :
    ¬ ({ w with completables := w.completables.setIfInBounds k { p with status := c.status } } :
      World O).IsPending (.completable k) := by
  rw [isPending_completable_iff]
  rintro ⟨q, hq, hdone⟩
  rw [Array.getElem?_setIfInBounds_self] at hq
  split_ifs at hq
  cases hq
  rw [Completable.isDone, Completion.status_isTerminal] at hdone
  cases hdone

/-! ## The ways apart -/

section

variable {i : Nat} {as : String} {units start : UInt64} {b : Bench O} {r : PlacedRail O}

/-- Permits of a guard rail go back to it at the time that its clock reads. -/
theorem returned_withBench (hr : b.rails[i]? = some r) (v : World O) (outcome : O) :
    (v.withBench b).returned i (some ⟨units, start, .rail i⟩) outcome =
      (v.withBench b).collected
        ((v.withBench b).bench.releaseTo i units outcome start (b.railTime r.clock)) := by
  simp only [returned, releaseTime, withBench, hr, Option.bind_some]
  rfl

theorem find_releaseTo {α : Type} {b : Bench O} {outcome : O} {now : UInt64} (id : String)
    (kind : Handle → Option α) :
    (b.releaseTo i units outcome start now).find id kind = b.find id kind := by
  rw [Bench.find, Bench.find, Bench.lookup, Bench.lookup, Bench.names_releaseTo]

/-- A name that was given before the bench became another is still known. -/
theorem find_withBench {handle : Handle} (hv : v.bench = (u.bind as handle).bench) {α : Type}
    {kind : Handle → Option α} {a : α} (hkind : kind handle = some a) :
    (v.withBench b).bench.find as kind = .ok a := by
  have hlookup : (v.withBench b).bench.lookup as = some handle := by
    change v.bench.lookup as = _
    rw [hv]
    exact Bench.lookup_bind_self u.bench as _
  rw [Bench.find, hlookup, Option.bind_some, hkind]

/-- A promise gives back what was stored of its request, and after that is completed for good. -/
theorem settle_promised (hr : b.rails[i]? = some r)
    (hv : v.Alike (u.addPromise as (some ⟨units, start, .rail i⟩))) (c : Completion O) :
    let settled := (v.withBench b).perform (.settle as c)
    settled.1 = .ok (.truth true) ∧
      settled.2.AgreesWith ((v.withBench b).collected
        ((v.withBench b).bench.releaseTo i units c.outcome start (b.railTime r.clock))) ∧
      settled.2.IsDone (.settle as) := by
  have hid : (v.withBench b).findPromise as = .ok u.promises.size := find_withBench hv.bench rfl
  have hp : (v.withBench b).promises[u.promises.size]? =
      some { permits := some ⟨units, start, .rail i⟩ } := by
    change v.promises[u.promises.size]? = _
    rw [hv.promises]
    exact Array.getElem?_push_size
  obtain ⟨hreply, hafter⟩ := perform_settle hid hp rfl (Machine.plain_pending i units start) c
  rw [returned_withBench hr] at hafter
  have hfound : ((v.withBench b).perform (.settle as c)).2.findPromise as =
      .ok u.promises.size := by
    rw [findPromise, hafter.bench]
    exact (find_releaseTo _ _).trans hid
  exact ⟨hreply, hafter.agreesWith.trans ⟨rfl, rfl⟩,
    isDone_settle hfound (mt (hafter.isPending_iff _).mp (not_isPending_finish _ _ _ _))⟩

/-- A completable does so too. -/
theorem complete_wrapped (hr : b.rails[i]? = some r)
    (hv : v.Alike (u.addCompletable as (some ⟨units, start, .rail i⟩))) (c : Completion O) :
    let completed := (v.withBench b).perform (.complete as c)
    completed.1 = .ok (.truth true) ∧
      completed.2.AgreesWith ((v.withBench b).collected
        ((v.withBench b).bench.releaseTo i units c.outcome start (b.railTime r.clock))) ∧
      completed.2.IsDone (.complete as) := by
  have hid : (v.withBench b).findCompletable as = .ok u.completables.size :=
    find_withBench hv.bench rfl
  have hp : (v.withBench b).completables[u.completables.size]? =
      some { permits := some ⟨units, start, .rail i⟩ } := by
    change v.completables[u.completables.size]? = _
    rw [hv.completables]
    exact Array.getElem?_push_size
  have hrelease : ∀ q : Permits (Release O), some ⟨units, start, .rail i⟩ = some q →
      q.release = .rail i := by
    rintro _ ⟨⟩
    rfl
  obtain ⟨hreply, hafter⟩ := perform_complete hid hp rfl hrelease c
  rw [returned_withBench hr] at hafter
  have hfound : ((v.withBench b).perform (.complete as c)).2.findCompletable as =
      .ok u.completables.size := by
    rw [findCompletable, hafter.bench]
    exact (find_releaseTo _ _).trans hid
  exact ⟨hreply, hafter.agreesWith.trans ⟨rfl, rfl⟩,
    isDone_complete hfound (mt (hafter.isPending_iff _).mp (not_isPending_completed _ _ _ _))⟩

end

end World

/-- **Three ways to hold permits** agree: a promise and a completable for permits of a guard rail,
and permits that are held by hand. The guard rail decides alike and is left alike. Whatever happens
meanwhile, if the clock of the guard rail reads `t` in the end, then a completion of the promise or
the completable leaves everything as it is after a return by hand of the same units, with the
outcome of the completion, the start that was asked for and the time `t`; and all further attempts
to complete them change nothing. -/
theorem ways_agree {w : World O} {rail : String} {i : Nat} (hrail : w.findRail rail = .ok i)
    (as : String) (units now t : UInt64) (c : Completion O) {b : Bench O} {r : PlacedRail O}
    (hr : b.rails[i]? = some r) (ht : b.railTime r.clock = t) :
    let asked := w.perform (.bench (.rail (.acquire rail units now)))
    let promised := w.perform (.railPromise rail units now as false)
    let wrapped := w.perform (.railCompletable rail units now as false)
    let released := (asked.2.withBench b).perform
      (.bench (.rail (.release rail units c.outcome now t)))
    let settled := (promised.2.withBench b).perform (.settle as c)
    let completed := (wrapped.2.withBench b).perform (.complete as c)
    (promised.1 = asked.1 ∧ promised.2.AgreesWith asked.2) ∧
      (wrapped.1 = asked.1 ∧ wrapped.2.AgreesWith asked.2) ∧
      (asked.1 = .ok .nothing →
        released.1 = .ok .nothing ∧
          (settled.1 = .ok (.truth true) ∧ settled.2.AgreesWith released.2 ∧
            settled.2.IsDone (.settle as)) ∧
          (completed.1 = .ok (.truth true) ∧ completed.2.AgreesWith released.2 ∧
            completed.2.IsDone (.complete as))) := by
  intro asked promised wrapped released settled completed
  obtain ⟨hasked, hafter⟩ := World.perform_acquire hrail units now
  obtain ⟨hpromised, hpromise⟩ := World.perform_railPromise hrail units now as
  obtain ⟨hwrapped, hwrap⟩ := World.perform_railCompletable hrail units now as
  have hnames := Bench.names_acquireFrom w.bench i units now
  subst ht
  generalize w.bench.acquireFrom i units now = answer at *
  obtain ⟨_ | reason, b₁⟩ := answer
  · have hfound : (asked.2.withBench b).findRail rail = .ok i := by
      have hsame : (asked.2.withBench b).bench.names = w.bench.names :=
        (congrArg Bench.names hafter.bench).trans hnames
      rwa [World.findRail_congr hsame]
    have hwaysPromise : promised.2.AgreesWith asked.2 :=
      (hpromise.agreesWith.trans (World.agreesWith_addPromise _ _ _)).trans hafter.symm.agreesWith
    have hwaysWrap : wrapped.2.AgreesWith asked.2 :=
      (hwrap.agreesWith.trans (World.agreesWith_addCompletable _ _ _)).trans hafter.symm.agreesWith
    refine ⟨⟨hpromised.trans hasked.symm, hwaysPromise⟩, ⟨hwrapped.trans hasked.symm, hwaysWrap⟩,
      fun _ => ?_⟩
    obtain ⟨hreleased, hback⟩ :=
      World.perform_release hfound units c.outcome now (b.railTime r.clock)
    obtain ⟨hsettled, hpaid, hdone⟩ := World.settle_promised hr hpromise c
    obtain ⟨hcompleted, hrepaid, hover⟩ := World.complete_wrapped hr hwrap c
    refine ⟨hreleased, ⟨hsettled, ?_, hdone⟩, hcompleted, ?_, hover⟩
    · exact hpaid.trans
        (((hwaysPromise.withBench b).releaseTo i _ _ _ _).trans hback.symm.agreesWith)
    · exact hrepaid.trans
        (((hwaysWrap.withBench b).releaseTo i _ _ _ _).trans hback.symm.agreesWith)
  · refine ⟨⟨hpromised.trans hasked.symm, hpromise.agreesWith.trans hafter.symm.agreesWith⟩,
      ⟨hwrapped.trans hasked.symm, hwrap.agreesWith.trans hafter.symm.agreesWith⟩,
        fun hgranted => ?_⟩
    -- A refusal gives a reason, so it is not taken for a grant.
    cases hasked.symm.trans hgranted

/-- A world with one guard rail, which has a clock and an observer, and a chain of a semaphore and a
gate that tells what it is asked. -/
def watchedWorld : World ActionResult where
  bench := {
    names := [("rail", .rail 0)]
    clocks := #[⟨0⟩]
    rails := #[{
      rail := {
        name := "rail"
        chain := [0, 1]
        observers := [.noting "watch"]
        results := 0
        rollingLatency := none
        intervalLatency := none
        rejections := .empty ⟨8, 125, 0, by decide, by decide⟩ }
      clock := some 0 }]
    plant := {
      components := #[.semaphore "permits" .maxConcurrency ⟨5, 5⟩, .scripted ⟨"probe", [], true⟩]
      results := #[.empty ⟨8, 125, 0, by decide, by decide⟩]
      rollingLatencies := #[]
      intervalLatencies := #[]
      notes := [] } }

/-- A promise for two units, asked for at time five, times out when the clock reads nine. -/
theorem ways_agree_timeout :
    let asked := watchedWorld.perform (.bench (.rail (.acquire "rail" 2 5)))
    let b := { asked.2.bench with clocks := #[⟨9⟩] }
    let promised := watchedWorld.perform (.railPromise "rail" 2 5 "action" false)
    let settled := (promised.2.withBench b).perform (.settle "action" .timeout)
    let released := (asked.2.withBench b).perform (.bench (.rail (.release "rail" 2 .timeout 5 9)))
    watchedWorld.findRail "rail" = .ok 0 ∧ (∃ r, b.rails[0]? = some r ∧ b.railTime r.clock = 9) ∧
      asked.1 = .ok .nothing ∧
      settled.2.AgreesWith released.2 ∧ settled.2.IsDone (.settle "action") ∧
      (callLog settled.2.log).length = 4 ∧
      settled.2.bench.rails[0]?.map (·.rail.resultTotals.get .timeout) = some 2 := by
  intro asked b promised settled released
  have hrail : watchedWorld.findRail "rail" = .ok 0 := rfl
  have hr : b.rails[0]? = some _ := rfl
  obtain ⟨-, -, hgranted⟩ := ways_agree hrail "action" 2 5 9 .timeout hr rfl
  obtain ⟨-, ⟨-, hagrees, hdone⟩, -⟩ := hgranted rfl
  exact ⟨hrail, ⟨_, hr, rfl⟩, rfl, hagrees, hdone, by decide +kernel, by decide +kernel⟩

end Admission.Scenario
