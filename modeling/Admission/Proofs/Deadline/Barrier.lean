import Admission.Proofs.Deadline.Handle

/-!
# What a call to stop promises

Only tasks that were sent before the first message to stop are ever fired. Once the worker has ended
nothing is fired any more, and the counter falls to the number of the tasks that were sent behind
that message. A call to stop on another thread returns after the worker has ended, unless a task
that was being fired had taken the handle of the worker: then it returns at once, and the worker
goes on with the tasks that are due.

## Main definitions

* `Shutdown.stopOn`, `Shutdown.stopTwice`: what calls to stop that do not wait leave behind

## Main results

* `steps_stopOn`: such a call, without a break
* `steps_stopTwice`: it can return before the worker has fired the tasks that are due
* `stop_waits_unless_inside`: what holds when a call to stop has returned, and once the worker has
  ended
-/

namespace Admission

namespace TimeoutService

variable {τ : Type}

namespace Shutdown

/-- What a call to stop leaves behind that has not waited for the worker. -/
def stopOn (c : Shutdown τ) (thread : Thread) : Shutdown τ :=
  { c with
    traffic.service := (c.traffic.service.refuse.send .stop).getD c.traffic.service.refuse
    mark := c.mark.or (some c.traffic.sent.length)
    stops := ⟨thread, .returned⟩ :: c.stops
    taker := c.taker.or (some thread) }

section Returns

variable {c : Shutdown τ} {x y : Call τ} {rest : List (Call τ)}

theorem worker_stopOn (c : Shutdown τ) (thread : Thread) :
    (c.stopOn thread).traffic.service.worker = c.traffic.service.worker := by
  unfold stopOn TimeoutService.send
  split
  · rfl
  · rfl

/-- A call that does not have the lock leaves it free. -/
theorem not_locked_of_stops {d : Shutdown τ} {thread : Thread} {stage : StopStage}
    (hd : d.stops = ⟨thread, stage⟩ :: c.stops) (hstage : stage ≠ .joining ∧ stage ≠ .leaving)
    (h : ¬ c.Locked) : ¬ d.Locked := by
  rintro ⟨p, hp, hp'⟩
  rw [hd] at hp
  rcases List.mem_cons.mp hp with rfl | hp
  · exact hp'.elim hstage.1 hstage.2
  · exact h ⟨p, hp, hp'⟩

/-- **A call to stop that is on the worker's thread, or finds the handle taken, does not wait.** -/
theorem steps_stopOn (thread : Thread)
    (hinside : thread = .worker → c.traffic.running.isSome ∧ ¬ c.Inside) (hlocked : ¬ c.Locked)
    (hfree : thread = .worker ∨ c.taker ≠ none) :
    Relation.ReflTransGen Step c (c.stopOn thread) := by
  let posted : Shutdown τ := { c with
    traffic.service := (c.traffic.service.refuse.send .stop).getD c.traffic.service.refuse
    mark := c.mark.or (some c.traffic.sent.length)
    stops := ⟨thread, .posted⟩ :: c.stops }
  have hunlocked : ¬ posted.Locked := not_locked_of_stops rfl (by decide) hlocked
  have htaken : ¬ (c.taker = none ∧ thread = .other) := by
    rintro ⟨hnone, rfl⟩
    exact hfree.elim (fun heq => nomatch heq) fun hne => hne hnone
  have htake : StopStep posted { posted with
      stops := ⟨thread, .leaving⟩ :: c.stops, taker := c.taker.or (some thread) } := by
    have hstep := StopStep.take (c := posted) [] rfl hunlocked
    rw [if_neg htaken] at hstep
    exact hstep
  exact .head (.stop (.refuse thread hinside)) (.head (.stop (.post [] rfl)) (.head (.stop htake)
    (.single (.stop (.release [] rfl)))))

/-- What two calls to stop leave behind that have not waited: one of the task that is being fired,
and then one on another thread. -/
def stopTwice (c : Shutdown τ) : Shutdown τ := (c.stopOn .worker).stopOn .other

/-- **Tasks can be fired after a call to stop has returned**: the task that is being fired stops the
service, then another thread does, and then the worker fires the next task that is due. -/
theorem steps_stopTwice (hstage : c.stage = .looping) (hr : c.traffic.running = some x)
    (hw : c.traffic.service.worker = .firing (y :: rest)) (hinside : ¬ c.Inside)
    (hlocked : ¬ c.Locked) :
    Relation.ReflTransGen Step c c.stopTwice ∧
      Relation.ReflTransGen Step c.stopTwice { c.stopTwice with
        traffic := (c.stopTwice.traffic.finish x .returned).fire y
          { c.stopTwice.traffic.service.finishFire with worker := .firing rest } } := by
  have hfirst := steps_stopOn .worker (fun _ => ⟨hr ▸ rfl, hinside⟩) hlocked (Or.inl rfl)
  have hsecond := steps_stopOn (c := c.stopOn .worker) .other (fun heq => nomatch heq)
    (not_locked_of_stops rfl (by decide) hlocked) (Or.inr (by simp [stopOn]))
  have hout : ¬ c.stopTwice.Inside := by
    rintro ⟨p, hp, hthread, hreturned⟩
    rcases List.mem_cons.mp hp with rfl | hp
    · exact hreturned rfl
    · rcases List.mem_cons.mp hp with rfl | hp
      · exact hreturned rfl
      · exact hinside ⟨p, hp, hthread, hreturned⟩
  have hworker : c.stopTwice.traffic.service.worker = .firing (y :: rest) := by
    rw [stopTwice, worker_stopOn, worker_stopOn, hw]
  have hfire : c.stopTwice.traffic.service.finishFire.fireNext? =
      some (y, { c.stopTwice.traffic.service.finishFire with worker := .firing rest }) := by
    rw [fireNext?, show c.stopTwice.traffic.service.finishFire.worker = _ from hworker]
  exact ⟨hfirst.trans hsecond,
    .head (.work (.finish .returned hr hout)) (.single (.work (.fire hstage rfl hfire)))⟩

end Returns

/-- **What a call to stop promises.** From then on no caller is let in. A call on another thread
that has returned has seen the worker end, unless a task that was being fired had taken the handle.
Only tasks that were sent before the first message to stop are fired, each at most once. Once the
worker has ended no task is fired, and the counter tells how many calls are in progress and how many
tasks were sent behind the message to stop. -/
theorem stop_waits_unless_inside {config : TimeoutConfig} {s : TimeoutService (Call τ)}
    (hs : make config = .ok s) {c : Shutdown τ}
    (h : Relation.ReflTransGen Step { traffic := { service := s } } c) :
    (c.stops ≠ [] → c.traffic.service.accepting = false) ∧
      ((∃ p ∈ c.stops, p.thread = .other ∧ p.stage = .returned) →
        c.traffic.service.isExited = true ∨
        c.taker = some .worker ∧ ∃ p ∈ c.stops, p.thread = .worker) ∧
      c.traffic.sent = c.ahead ++ c.behind ∧ c.fired.Subperm c.ahead ∧
      (c.traffic.service.isExited = true → ∀ d, Relation.ReflTransGen Step c d →
        d.fired = c.fired ∧ d.traffic.service.pending =
          d.traffic.counted.length + d.failed.length + c.behind.length) := by
  have ho := (accounted_start hs).steps h
  have hg := (guarded_start s).steps (accounted_start hs) h
  refine ⟨ho.refusing, ?_, c.ahead_append_behind.symm, ?_, fun hexited d hd => ?_⟩
  · rintro ⟨p, hp, -, hreturned⟩
    rcases hg.passed p hp (Or.inr hreturned) with hended | htaker
    · left
      rw [isExited, ho.exited.mpr hended]
    · exact Or.inr ⟨htaker, hg.inside htaker⟩
  · exact (List.sublist_append_left _ _).subperm.trans ho.fired
  · obtain ⟨hended, hfired, hbehind⟩ := ho.of_ended_steps (ho.ended_of_isExited hexited) hd
    exact ⟨hfired, hbehind ▸ (ho.steps hd).pending_of_ended hended⟩

/-- A call to stop waits for the worker, and meanwhile a caller sends its task behind the message to
stop. The other task is dropped from the queue. Nothing is ever fired, and the one task stays
pending for ever. -/
theorem stop_waits_unless_inside_late :
    ∃ (s : TimeoutService (Call String)) (c : Shutdown String),
      make {} = .ok s ∧ Relation.ReflTransGen Step { traffic := { service := s } } c ∧
        c.stops = [⟨.other, .returned⟩] ∧ c.traffic.service.isExited = true ∧
        c.ahead.map (·.task) = ["early"] ∧ c.behind.map (·.task) = ["late"] ∧
        ∀ d, Relation.ReflTransGen Step c d →
          d.fired = [] ∧ d.traffic.service.pending =
            d.traffic.counted.length + d.failed.length + 1 := by
  let s : TimeoutService (Call String) :=
    { name := "precipice-timeout", maxTimeout := 86400000000000 }
  let early : Call String := ⟨0, "early", ⟨5⟩, 0⟩
  let held : TimeoutService (Call String) :=
    { s with pending := 1, queue := ⟨[⟨5, early⟩]⟩ }
  have hs : make {} = .ok s := by decide +kernel
  have hrun : Relation.ReflTransGen Step { traffic := { service := s } } _ :=
    .head (.call (.enter "early" ⟨5⟩ 0 rfl)) <| .head (.call (.count [] rfl)) <|
    .head (.call (.send [] rfl rfl)) <| .head (.work (.wake 0 rfl rfl (Or.inl rfl))) <|
    .head (.work (.receive (s := held) rfl rfl (by decide +kernel) (by decide))) <|
    .head (.call (.enter "late" ⟨5⟩ 0 rfl)) <|
      .head (.stop (.refuse .other (fun heq => nomatch heq))) <|
    .head (.stop (.post [] rfl)) <| .head (.call (.count [] rfl)) <|
      .head (.call (.send [] rfl rfl)) <|
    .head (.stop (.take [] rfl (by decide))) <| .head (.work (.wake 0 rfl rfl (Or.inl rfl))) <|
    .head (.work (.leave rfl rfl rfl rfl)) <| .head (.work (.uncount rfl)) <|
    .head (.work (.close rfl)) <| .head (.work (.terminate rfl)) <|
    .head (.stop (.join [] rfl rfl)) <| .head (.stop (.release [] rfl)) .refl
  obtain ⟨-, hwaits, -, -, hended⟩ := stop_waits_unless_inside hs hrun
  have hexited := (hwaits ⟨_, List.mem_singleton_self _, rfl, rfl⟩).resolve_right fun htaker =>
    nomatch htaker.1
  exact ⟨s, _, hs, hrun, rfl, hexited, rfl, rfl, hended hexited⟩

/-- Two tasks are due. The first one stops the service, and so does another thread while the first
is being fired. The second is fired after both calls to stop have returned. A third task, which is
sent behind the message to stop, stays pending when no call is in progress any more. -/
theorem stop_returns_before_end :
    ∃ (s : TimeoutService (Call String)) (c d e : Shutdown String),
      make {} = .ok s ∧ Relation.ReflTransGen Step { traffic := { service := s } } c ∧
        (∃ p ∈ c.stops, p.thread = .other ∧ p.stage = .returned) ∧
          c.fired.map (·.task) = ["first"] ∧
        Relation.ReflTransGen Step c d ∧ d.fired.map (·.task) = ["first", "second"] ∧
        Relation.ReflTransGen Step d e ∧ e.traffic.service.isExited = true ∧
          e.traffic.entered = [] ∧
        e.traffic.counted = [] ∧ e.failed = [] ∧ e.traffic.service.pending = 1 := by
  let s : TimeoutService (Call String) :=
    { name := "precipice-timeout", maxTimeout := 86400000000000 }
  let first : Call String := ⟨0, "first", ⟨5⟩, 0⟩
  let second : Call String := ⟨1, "second", ⟨5⟩, 0⟩
  let one : TimeoutService (Call String) :=
    { s with pending := 2, channel := [.schedule second 5], queue := ⟨[⟨5, first⟩]⟩ }
  let both : TimeoutService (Call String) :=
    { s with pending := 2, queue := ⟨[⟨5, first⟩, ⟨5, second⟩]⟩ }
  let third : Call String := ⟨2, "third", ⟨5⟩, 0⟩
  let firing : TimeoutService (Call String) := { s with pending := 2, worker := .firing [second] }
  let c : Shutdown String := { traffic := {
    service := firing
    made := 3
    entered := [third]
    sent := [first, second]
    past := [⟨0, [], []⟩, ⟨0, [], []⟩]
    current := some ⟨5, [first, second], [first]⟩
    running := some first } }
  have hs : make {} = .ok s := by decide +kernel
  have hfirst : Relation.ReflTransGen Step { traffic := { service := s } } c :=
    .head (.call (.enter "first" ⟨5⟩ 0 rfl)) <| .head (.call (.count [] rfl)) <|
    .head (.call (.send [] rfl rfl)) <| .head (.call (.enter "second" ⟨5⟩ 0 rfl)) <|
    .head (.call (.count [] rfl)) <| .head (.call (.send [] rfl rfl)) <|
    .head (.call (.enter "third" ⟨5⟩ 0 rfl)) <| .head (.work (.wake 0 rfl rfl (Or.inl rfl))) <|
    .head (.work (.receive (s := one) rfl rfl (by decide +kernel) (by decide))) <|
    .head (.work (.wake 0 rfl rfl (Or.inl rfl))) <|
    .head (.work (.receive (s := both) rfl rfl (by decide +kernel) (by decide))) <|
    .head (.work (.wake 5 rfl rfl (Or.inl rfl))) <|
    .head (.work (.fire (x := first) (s := firing) rfl rfl (by decide +kernel))) .refl
  obtain ⟨hstops, hsecond⟩ := steps_stopTwice (c := c) rfl rfl rfl (by decide) (by decide)
  have hend : Relation.ReflTransGen Step { c.stopTwice with
      traffic := (c.stopTwice.traffic.finish first .returned).fire second
        { c.stopTwice.traffic.service.finishFire with worker := .firing [] } } _ :=
    .head (.work (.finish .returned rfl (by decide))) <| .head (.call (.count [] rfl)) <|
    .head (.call (.send [] rfl rfl)) <| .head (.work (.leave rfl rfl rfl rfl)) <|
    .head (.work (.uncount rfl)) <| .head (.work (.close rfl)) <|
      .head (.work (.terminate rfl)) .refl
  exact ⟨s, c.stopTwice, _, _, hs, hfirst.trans hstops, ⟨_, List.mem_cons_self, rfl, rfl⟩,
    rfl, hsecond, rfl,
    hend, rfl, rfl, rfl, rfl, rfl⟩

end Shutdown

end TimeoutService

end Admission
