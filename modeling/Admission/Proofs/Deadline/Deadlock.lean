import Admission.Proofs.Deadline.Barrier

/-!
# Calls to stop that wait for each other

A call to stop on another thread keeps the lock of the worker's handle until the worker has ended.
If the task that is being fired calls to stop the service meanwhile, it waits for the lock on the
worker's own thread. Then the worker waits for the lock, whose holder waits for the worker. Nothing
gets them out of it: no task is fired any more, the worker does not end, and neither call returns.

It takes both calls to get there. As long as they do not cross, the worker and the calls that are in
progress can always go on until all of these have returned.

## Main definitions

* `Shutdown.Crossed`, `Shutdown.Deadlocked`: the two calls cross, and they wait for each other
* `Shutdown.handle`: who has the handle of the worker
* `Shutdown.Disciplined`: what holds of calls to stop at all times
* `Shutdown.Onward`: a step of the worker, or of a call to stop that is in progress
* `Shutdown.remaining`: how much there is left to do until all calls have returned

## Main results

* `Disciplined.step`, `Disciplined.steps`: what holds is kept by each step, and by any steps
* `Crossed.steps`: calls that cross stay so, and the worker does nothing any more
* `exists_deadlocked_of_running`: calls can cross whenever a task is being fired
* `exists_steps_handle`: what a call to stop makes of the handle
* `exists_onward`, `exists_returned`: other calls can go on until they return
* `stop_returns_unless_crossed`: all of it for any run
* `stops_deadlock`: a run that ends in a deadlock
-/

namespace Admission

namespace TimeoutService

variable {τ : Type}

/-- A call that has the lock. -/
def StopCall.hasLock (p : StopCall) : Bool := p.stage = .joining ∨ p.stage = .leaving

/-- How far a call is from its end. A message that it sends to stop keeps the worker busy, too. -/
def StopStage.remaining : StopStage → Nat
  | .refused => 9
  | .posted => 3
  | .joining => 2
  | .leaving => 1
  | .returned => 0

/-- How far the worker is from its end once it has received a message to stop. -/
def WorkerStage.remaining : WorkerStage → Nat
  | .looping => 4
  | .left => 3
  | .uncounted => 2
  | .closed => 1
  | .ended => 0

/-- How far the worker is from having fired all tasks and received all messages. A message makes it
look at its clock, and a task that it brings is held before it is due. -/
def remaining (s : TimeoutService τ) : Nat :=
  5 * s.channel.length + 3 * s.held.length + match s.worker with
    | .waking => 1
    | .firing due => 2 * due.length
    | .exited => 0

section Remaining

variable {s u : TimeoutService τ} {task : τ}

theorem remaining_send (s : TimeoutService τ) (m : Message τ) :
    ((s.send m).getD s).remaining ≤ s.remaining + 5 := by
  unfold send
  split
  · exact Nat.le_add_right _ _
  · simp only [Option.getD_some, remaining, held, List.length_append, List.length_singleton]
    omega

theorem remaining_wake (h : s.worker = .waking) (now : UInt64) :
    (s.wake now).remaining < s.remaining := by
  have hheld := congrArg List.length (s.held_wake now)
  rw [List.length_append] at hheld
  have hwake : (s.wake now).remaining =
      5 * s.channel.length + 3 * (s.wake now).held.length + 2 * (s.wake now).due.length := rfl
  rw [hwake, remaining, h]
  dsimp only
  omega

theorem remaining_fireNext? (h : s.fireNext? = some (task, u)) : u.remaining + 2 = s.remaining := by
  obtain ⟨rest, hworker, rfl⟩ := worker_of_fireNext? h
  simp only [remaining, held, hworker, List.length_cons]
  omega

theorem remaining_receive? (h : s.receive? = some u) (hu : u.worker ≠ .exited) :
    u.remaining < s.remaining := by
  obtain ⟨hworker, m, rest, hchannel, hschedule⟩ := exists_of_receive? h
  cases m with
  | stop =>
    rw [receive?, hworker, hchannel] at h
    cases h
    exact absurd rfl hu
  | schedule task deadline =>
    obtain rfl := hschedule task deadline rfl
    have hheld := (DeadlineQueue.insert_perm ⟨deadline, task⟩ s.queue.entries).length_eq
    simp only [remaining, held, hworker, hchannel, DeadlineQueue.push, List.length_map,
      List.length_cons] at hheld ⊢
    omega

end Remaining

namespace Shutdown

/-- A call to stop has the lock and waits for the worker to end, while the task that is being fired
has called to stop the service too. -/
def Crossed (c : Shutdown τ) : Prop := c.Inside ∧ ∃ p ∈ c.stops, p.stage = .joining

/-- The worker waits for the lock, and whoever has it waits for the worker to end. -/
def Deadlocked (c : Shutdown τ) : Prop :=
  (∃ p ∈ c.stops, p.thread = .worker ∧ p.stage = .posted) ∧
    ∃ p ∈ c.stops, p.thread = .other ∧ p.stage = .joining

instance (c : Shutdown τ) : Decidable c.Crossed :=
  inferInstanceAs (Decidable (c.Inside ∧ ∃ p ∈ c.stops, p.stage = .joining))

instance (c : Shutdown τ) : Decidable c.Deadlocked :=
  inferInstanceAs (Decidable ((∃ p ∈ c.stops, p.thread = .worker ∧ p.stage = .posted) ∧
    ∃ p ∈ c.stops, p.thread = .other ∧ p.stage = .joining))

theorem Deadlocked.crossed {c : Shutdown τ} (h : c.Deadlocked) : c.Crossed := by
  obtain ⟨⟨p, hp, hthread, hposted⟩, q, hq, -, hjoining⟩ := h
  exact ⟨⟨p, hp, hthread, by rw [hposted]; decide⟩, q, hq, hjoining⟩

/-! ## What holds of calls to stop -/

/-- What holds of calls to stop at all times. -/
structure Disciplined (c : Shutdown τ) : Prop where
  /-- A task that is in a call to stop is being fired. -/
  running : c.Inside → c.traffic.running.isSome = true
  marked : ∀ p ∈ c.stops, p.stage ≠ .refused → c.mark.isSome = true
  joining : ∀ p ∈ c.stops, p.stage = .joining → p.thread = .other ∧ c.taker = some .other
  alone : c.stops.countP StopCall.hasLock ≤ 1

section Discipline

variable {c d : Shutdown τ} {before after : List StopCall} {thread : Thread}

theorem disciplined_start (s : TimeoutService (Call τ)) :
    Disciplined { traffic := { service := s } } where
  running := fun ⟨_, hp, _⟩ => nomatch hp
  marked := fun _ hp => nomatch hp
  joining := fun _ hp => nomatch hp
  alone := Nat.zero_le 1

theorem not_locked_iff : ¬ c.Locked ↔ c.stops.countP StopCall.hasLock = 0 := by
  rw [List.countP_eq_zero]
  simp [Locked, StopCall.hasLock]

/-- A call goes on, and the others stay where they are. -/
theorem Disciplined.replace (hd : c.Disciplined) {old new : StopStage}
    (h : c.stops = before ++ ⟨thread, old⟩ :: after)
    (hstops : d.stops = before ++ ⟨thread, new⟩ :: after)
    (hrunning : d.traffic.running = c.traffic.running) (hold : old ≠ .returned)
    (hmark : c.mark.isSome = true → d.mark.isSome = true)
    (hmarked : new ≠ .refused → d.mark.isSome = true)
    (htaker : c.taker = some .other → d.taker = some .other)
    (hjoining : new = .joining → thread = .other ∧ d.taker = some .other)
    (hlock : d.stops.countP StopCall.hasLock ≤ 1) : d.Disciplined where
  running := by
    rintro ⟨p, hp, hthread, hreturned⟩
    rw [hrunning]
    rw [hstops] at hp
    apply hd.running
    rcases mem_or_eq_of_mem_replaced hp with hp | rfl
    · exact ⟨p, h ▸ hp, hthread, hreturned⟩
    · exact ⟨⟨thread, old⟩, h ▸ List.mem_append_right _ List.mem_cons_self, hthread, hold⟩
  marked := by
    intro p hp hrefused
    rw [hstops] at hp
    rcases mem_or_eq_of_mem_replaced hp with hp | rfl
    · exact hmark (hd.marked p (h ▸ hp) hrefused)
    · exact hmarked hrefused
  joining := by
    intro p hp hstage
    rw [hstops] at hp
    rcases mem_or_eq_of_mem_replaced hp with hp | rfl
    · exact (hd.joining p (h ▸ hp) hstage).imp_right htaker
    · exact hjoining hstage
  alone := hlock

theorem countP_replaced (before after : List StopCall) (thread : Thread) (old new : StopStage) :
    (before ++ ⟨thread, new⟩ :: after).countP StopCall.hasLock +
    (StopCall.hasLock ⟨thread, old⟩).toNat =
      (before ++ ⟨thread, old⟩ :: after).countP StopCall.hasLock +
        (StopCall.hasLock ⟨thread, new⟩).toNat := by
  simp only [List.countP_append, List.countP_cons]
  cases StopCall.hasLock ⟨thread, old⟩ <;> cases StopCall.hasLock ⟨thread, new⟩ <;> simp <;> omega

/-- A call that goes on leaves another one where it is. -/
theorem mem_replaced {p : StopCall} {old new : StopStage}
    (h : c.stops = before ++ ⟨thread, old⟩ :: after) (hp : p ∈ c.stops) (hne : p.stage ≠ old) :
    p ∈ before ++ ⟨thread, new⟩ :: after := by
  rw [h] at hp
  rcases mem_or_eq_of_mem_replaced hp with hp | rfl
  · exact hp
  · exact absurd rfl hne

/-- While a call waits for the worker with the lock, no other call has the lock. -/
theorem Disciplined.ne_leaving (hd : c.Disciplined) {p q : StopCall} (hq : q ∈ c.stops)
    (hjoining : q.stage = .joining) (hp : p ∈ c.stops) : p.stage ≠ .leaving := by
  intro hleaving
  obtain ⟨thread, stage⟩ := p
  subst hleaving
  obtain ⟨before, after, h⟩ := List.append_of_mem hp
  have hq' : q ∈ before ++ ⟨thread, .returned⟩ :: after :=
    mem_replaced h hq (by rw [hjoining]; decide)
  have hpos : 0 < (before ++ ⟨thread, .returned⟩ :: after).countP StopCall.hasLock :=
    List.countP_pos_iff.mpr ⟨q, hq', by simp [StopCall.hasLock, hjoining]⟩
  have hlock : (before ++ ⟨thread, .returned⟩ :: after).countP StopCall.hasLock + 1 =
      (before ++ ⟨thread, .leaving⟩ :: after).countP StopCall.hasLock :=
    countP_replaced before after thread .leaving .returned
  have hone := hd.alone
  rw [h] at hone
  omega

theorem Disciplined.of_stopStep (hd : c.Disciplined) (h : StopStep c d) : d.Disciplined := by
  cases h with
  | refuse thread h =>
    exact {
      running := by
        rintro ⟨p, hp, hthread, hreturned⟩
        rcases List.mem_cons.mp hp with rfl | hp
        · exact (h hthread).1
        · exact hd.running ⟨p, hp, hthread, hreturned⟩
      marked := by
        intro p hp hrefused
        rcases List.mem_cons.mp hp with rfl | hp
        · exact absurd rfl hrefused
        · exact hd.marked p hp hrefused
      joining := by
        intro p hp hstage
        rcases List.mem_cons.mp hp with rfl | hp
        · cases hstage
        · exact hd.joining p hp hstage
      alone := (List.countP_cons_of_neg (by simp [StopCall.hasLock])).trans_le hd.alone }
  | @post before after thread h =>
    have hmark : (c.mark.or (some c.traffic.sent.length)).isSome = true := by simp
    have hlock := countP_replaced before after thread .refused .posted
    rw [← h] at hlock
    exact hd.replace h rfl rfl (by simp) (fun _ => hmark) (fun _ => hmark) id (by simp)
      (hlock.le.trans hd.alone)
  | @take before after thread h hl =>
    have hmark := hd.marked _ (h ▸ List.mem_append_right _ List.mem_cons_self) (by simp)
    have hfree := not_locked_iff.mp hl
    have hlock := countP_replaced before after thread .posted
      (if c.taker = none ∧ thread = .other then .joining else .leaving)
    rw [← h, hfree] at hlock
    refine hd.replace h rfl rfl (by simp) id (fun _ => hmark) (fun htaker => ?_) (fun hnew => ?_) ?_
    · simp [htaker]
    · have hfirst : c.taker = none ∧ thread = .other := by
        by_contra hlate
        simp [hlate] at hnew
      exact ⟨hfirst.2, by simp [hfirst]⟩
    · have hone := Bool.toNat_le (StopCall.hasLock
        ⟨thread, if c.taker = none ∧ thread = .other then .joining else .leaving⟩)
      exact Nat.le_trans (Nat.le_add_right _ _) (hlock.le.trans ((Nat.zero_add _).le.trans hone))
  | @join before after thread h he =>
    have hmark := hd.marked _ (h ▸ List.mem_append_right _ List.mem_cons_self) (by simp)
    have hlock := countP_replaced before after thread .joining .leaving
    rw [← h] at hlock
    exact hd.replace h rfl rfl (by simp) id (fun _ => hmark) id (by simp)
      ((Nat.add_right_cancel hlock).le.trans hd.alone)
  | @release before after thread h =>
    have hmark := hd.marked _ (h ▸ List.mem_append_right _ List.mem_cons_self) (by simp)
    have hlock := countP_replaced before after thread .leaving .returned
    rw [← h] at hlock
    exact hd.replace h rfl rfl (by simp) id (fun _ => hmark) id (by simp)
      (Nat.le_trans (Nat.le_add_right _ _) (hlock.le.trans hd.alone))

/-- Inside of a call the task that is being fired does not end. -/
theorem Disciplined.of_workStep (hd : c.Disciplined) (h : WorkStep c d) : d.Disciplined := by
  obtain ⟨hstops, htaker, -⟩ := h.of_ended
  have hrunning : d.Inside → d.traffic.running.isSome = true := by
    intro hinside
    rw [Inside, hstops] at hinside
    have hsome := hd.running hinside
    cases h with
    | wake now hstage hr h => exact hsome
    | fire hstage hr h => rfl
    | finish ending hr h => exact absurd hinside h
    | receive hstage hr h hs => exact hsome
    | leave hstage hr hw h => exact hsome
    | uncount hstage => exact hsome
    | close hstage => exact hsome
    | terminate hstage => exact hsome
  have hmark : d.mark = c.mark := by cases h <;> rfl
  exact {
    running := hrunning
    marked := by
      rw [hstops, hmark]
      exact hd.marked
    joining := by
      rw [hstops, htaker]
      exact hd.joining
    alone := by
      rw [hstops]
      exact hd.alone }

theorem Disciplined.step (hd : c.Disciplined) (h : Step c d) : d.Disciplined := by
  cases h with
  | call h => cases h with
    | enter task timeout now h => exact { hd with }
    | count before h => exact { hd with }
    | send before h hs => exact { hd with }
    | fail before h hs => exact { hd with }
    | retract before h => exact { hd with }
  | work h => exact hd.of_workStep h
  | stop h => exact hd.of_stopStep h

theorem Disciplined.steps (hd : c.Disciplined) (h : Relation.ReflTransGen Step c d) :
    d.Disciplined := by
  induction h with
  | refl => exact hd
  | tail _ hstep ih => exact ih.step hstep

end Discipline

/-! ## Calls that cross -/

section Crossing

variable {c d : Shutdown τ}

/-- While two calls cross, a task is being fired, and the worker has not left its rounds. -/
theorem Crossed.running (hx : c.Crossed) (hd : c.Disciplined) (ho : c.Accounted) :
    c.traffic.running.isSome = true ∧ c.stage = .looping := by
  have hrunning := hd.running hx.1
  refine ⟨hrunning, ?_⟩
  by_contra hne
  rw [(ho.resting hne).1] at hrunning
  cases hrunning

/-- The worker is in the middle of firing a task that does not end. -/
theorem Crossed.not_workStep (hx : c.Crossed) (hd : c.Disciplined) (ho : c.Accounted) :
    ¬ WorkStep c d := by
  obtain ⟨hrunning, hlooping⟩ := hx.running hd ho
  intro h
  cases h with
  | wake now hstage hr h | fire hstage hr h | receive hstage hr h hs | leave hstage hr hw h =>
    rw [hr] at hrunning
    cases hrunning
  | finish ending hr h => exact h hx.1
  | uncount hstage | close hstage | terminate hstage => exact nomatch hlooping.symm.trans hstage

theorem Crossed.not_exited (hx : c.Crossed) (hd : c.Disciplined) (ho : c.Accounted) :
    c.traffic.service.isExited = false := by
  rw [Bool.eq_false_iff]
  intro he
  exact nomatch (hx.running hd ho).2.symm.trans (ho.ended_of_isExited he)

/-- **Calls that cross stay so.** Neither of them can go on with the lock: one has it and waits for
the end of the worker, and the other waits for it. -/
theorem Crossed.step (hx : c.Crossed) (hd : c.Disciplined) (ho : c.Accounted) (h : Step c d) :
    d.Crossed ∧ d.fired = c.fired := by
  obtain ⟨⟨p, hp, hthread, hreturned⟩, q, hq, hjoining⟩ := id hx
  cases h with
  | call h => cases h <;> exact ⟨hx, rfl⟩
  | work h => exact absurd h (hx.not_workStep hd ho)
  | stop h => cases h with
    | refuse thread h =>
      exact ⟨⟨⟨p, List.mem_cons_of_mem _ hp, hthread, hreturned⟩, q, List.mem_cons_of_mem _ hq,
        hjoining⟩, rfl⟩
    | @post before after thread h =>
      have hq' : q ∈ before ++ ⟨thread, .posted⟩ :: after :=
        mem_replaced h hq (by rw [hjoining]; decide)
      refine ⟨⟨?_, q, hq', hjoining⟩, rfl⟩
      rw [h] at hp
      rcases mem_or_eq_of_mem_replaced hp with hp | rfl
      · exact ⟨p, hp, hthread, hreturned⟩
      · exact ⟨⟨thread, .posted⟩, List.mem_append_right _ List.mem_cons_self, hthread, by simp⟩
    | take before h hl => exact absurd ⟨q, hq, Or.inl hjoining⟩ hl
    | join before h he =>
      rw [hx.not_exited hd ho] at he
      cases he
    | release before h =>
      exact absurd rfl (hd.ne_leaving hq hjoining (h ▸ List.mem_append_right _ List.mem_cons_self))

/-- **Any steps** after two calls have crossed. -/
theorem Crossed.steps (hx : c.Crossed) (hd : c.Disciplined) (ho : c.Accounted)
    (h : Relation.ReflTransGen Step c d) : d.Crossed ∧ d.fired = c.fired := by
  induction h with
  | refl => exact ⟨hx, rfl⟩
  | tail hsteps hstep ih =>
    obtain ⟨hcrossed, hfired⟩ := ih
    obtain ⟨hcrossed', hfired'⟩ := hcrossed.step (hd.steps hsteps) (ho.steps hsteps) hstep
    exact ⟨hcrossed', hfired'.trans hfired⟩

/-- The task that is being fired comes to wait for the lock. -/
theorem Crossed.exists_deadlocked (hx : c.Crossed) (hd : c.Disciplined) :
    ∃ d, Relation.ReflTransGen Step c d ∧ d.Deadlocked := by
  obtain ⟨⟨⟨thread, stage⟩, hp, rfl, hreturned⟩, q, hq, hjoining⟩ := hx
  have hother := (hd.joining q hq hjoining).1
  cases stage with
  | posted => exact ⟨c, .refl, ⟨_, hp, rfl, rfl⟩, q, hq, hother, hjoining⟩
  | refused =>
    obtain ⟨before, after, h⟩ := List.append_of_mem hp
    have hq' : q ∈ before ++ ⟨.worker, .posted⟩ :: after :=
      mem_replaced h hq (by rw [hjoining]; decide)
    exact ⟨_, .single (.stop (.post before h)),
      ⟨_, List.mem_append_right _ List.mem_cons_self, rfl, rfl⟩,
      q, hq', hother, hjoining⟩
  | joining => exact nomatch (hd.joining _ hp rfl).1
  | leaving => exact absurd rfl (hd.ne_leaving hq hjoining hp)
  | returned => exact absurd rfl hreturned

/-- What a call to stop leaves behind that is about to take the lock. -/
def postOn (c : Shutdown τ) (thread : Thread) : Shutdown τ :=
  { c with
    traffic.service := (c.traffic.service.refuse.send .stop).getD c.traffic.service.refuse
    mark := c.mark.or (some c.traffic.sent.length)
    stops := ⟨thread, .posted⟩ :: c.stops }

theorem steps_postOn (thread : Thread)
    (hinside : thread = .worker → c.traffic.running.isSome = true ∧ ¬ c.Inside) :
    Relation.ReflTransGen Step c (c.postOn thread) :=
  .head (.stop (.refuse thread hinside)) (.single (.stop (.post [] rfl)))

theorem exists_mem_cons {q : StopCall} {P : StopCall → Prop} (hq : ¬ P q) :
    (∃ p ∈ q :: c.stops, P p) ↔ ∃ p ∈ c.stops, P p := by
  simp [hq]

/-- **Calls can cross whenever a task is being fired** and nobody has taken the handle yet: another
thread takes it and waits for the worker, and then the task calls to stop the service. -/
theorem exists_deadlocked_of_running (hr : c.traffic.running.isSome = true) (hinside : ¬ c.Inside)
    (hlocked : ¬ c.Locked) (hfree : c.taker = none) :
    ∃ d, Relation.ReflTransGen Step c d ∧ d.Deadlocked := by
  have hposted := steps_postOn (c := c) .other fun heq => nomatch heq
  have htake :=
    StopStep.take (c := c.postOn .other) [] rfl (not_locked_of_stops rfl (by decide) hlocked)
  refine ⟨_, (hposted.tail (.stop htake)).trans (steps_postOn .worker fun _ => ⟨hr, ?_⟩),
    ⟨_, List.mem_cons_self, rfl, rfl⟩, _, List.mem_cons_of_mem _ List.mem_cons_self, rfl,
      if_pos ⟨hfree, rfl⟩⟩
  exact mt (exists_mem_cons (by simp)).mp hinside

end Crossing

/-! ## What calls make of the handle -/

/-- Who has the handle of the worker. -/
def handle (c : Shutdown τ) : WorkerHandle :=
  if c.Deadlocked then .deadlocked
  else if ∃ p ∈ c.stops, p.stage = .joining then .awaited
  else if c.taker = none then .free
  else .taken

section Handles

variable {c : Shutdown τ} {thread : Thread}

theorem handle_of_deadlocked (h : c.Deadlocked) : c.handle = .deadlocked := if_pos h

theorem handle_of_joining (h : ∃ p ∈ c.stops, p.stage = .joining)
    (hposted : ¬ ∃ p ∈ c.stops, p.thread = .worker ∧ p.stage = .posted) : c.handle = .awaited := by
  rw [handle, if_neg fun hd => hposted hd.1, if_pos h]

theorem handle_of_not_joining (h : ¬ ∃ p ∈ c.stops, p.stage = .joining) :
    c.handle = if c.taker = none then .free else .taken := by
  have hd : ¬ c.Deadlocked := fun ⟨_, p, hp, _, hjoining⟩ => h ⟨p, hp, hjoining⟩
  rw [handle, if_neg hd, if_neg h]

/-- **A call to stop makes of the handle what it is said to** while the worker is busy, when no
other call is underway but those that wait. -/
theorem exists_steps_handle
    (hinside : thread = .worker → c.traffic.running.isSome = true ∧ ¬ c.Inside)
    (hquiet : ∀ p ∈ c.stops, p.stage = .returned ∨ p.thread = .other ∧ p.stage ≠ .leaving) :
    ∃ d, Relation.ReflTransGen Step c d ∧ d.handle = c.handle.stop (thread = .worker) true := by
  have hposted : ¬ ∃ p ∈ c.stops, p.thread = .worker ∧ p.stage = .posted := by
    rintro ⟨p, hp, hthread, hposted⟩
    rcases hquiet p hp with hreturned | ⟨hother, -⟩
    · exact nomatch hposted.symm.trans hreturned
    · exact nomatch hthread.symm.trans hother
  by_cases hjoining : ∃ p ∈ c.stops, p.stage = .joining
  · rw [handle_of_joining hjoining hposted]
    refine ⟨c.postOn thread, steps_postOn thread hinside, ?_⟩
    cases thread with
    | worker =>
      obtain ⟨q, hq, hstage⟩ := hjoining
      have hother : q.thread = .other := by
        rcases hquiet q hq with hreturned | ⟨hother, -⟩
        · exact nomatch hstage.symm.trans hreturned
        · exact hother
      exact handle_of_deadlocked ⟨⟨_, List.mem_cons_self, rfl, rfl⟩, q, List.mem_cons_of_mem _ hq,
        hother, hstage⟩
    | other =>
      exact handle_of_joining ((exists_mem_cons (by simp)).mpr hjoining)
        (mt (exists_mem_cons (by simp)).mp hposted)
  · have hlocked : ¬ c.Locked := by
      rintro ⟨p, hp, hstage | hstage⟩
      · exact hjoining ⟨p, hp, hstage⟩
      · rcases hquiet p hp with hreturned | ⟨-, hleaving⟩
        · exact nomatch hstage.symm.trans hreturned
        · exact hleaving hstage
    rw [handle_of_not_joining hjoining]
    by_cases hfirst : c.taker = none ∧ thread = .other
    · obtain ⟨hnone, rfl⟩ := hfirst
      have htake :=
        StopStep.take (c := c.postOn .other) [] rfl (not_locked_of_stops rfl (by decide) hlocked)
      refine ⟨_, (steps_postOn .other hinside).tail (.stop htake), ?_⟩
      rw [if_pos hnone]
      exact handle_of_joining ⟨_, List.mem_cons_self,
        if_pos ⟨hnone, rfl⟩⟩ (mt (exists_mem_cons (by simp)).mp hposted)
    · have hdone : thread = .worker ∨ c.taker ≠ none := by
        cases thread with
        | worker => exact Or.inl rfl
        | other => exact Or.inr fun hnone => hfirst ⟨hnone, rfl⟩
      refine ⟨c.stopOn thread, steps_stopOn thread hinside hlocked hdone, ?_⟩
      rw [handle_of_not_joining (mt (exists_mem_cons (by simp)).mp hjoining)]
      have htaken : (c.stopOn thread).taker ≠ none := by simp [stopOn]
      rw [if_neg htaken]
      split_ifs with hnone
      · cases hdone.resolve_right (not_not_intro hnone)
        rfl
      · rfl

end Handles

/-! ## Calls that do not cross -/

/-- A step of the worker, or of a call to stop that is in progress. -/
inductive Onward : Shutdown τ → Shutdown τ → Prop where
  | work {c d : Shutdown τ} (h : WorkStep c d) : Onward c d
  | stop {c d : Shutdown τ} (h : StopStep c d) (hold : d.stops.length = c.stops.length) : Onward c d

/-- How much there is left to do until all calls that are in progress have returned. -/
def remaining (c : Shutdown τ) : Nat :=
  c.traffic.service.remaining + c.traffic.running.toList.length + c.stage.remaining +
    (c.stops.map (·.stage.remaining)).sum

section Progress

variable {c d : Shutdown τ} {before after : List StopCall} {thread : Thread}

theorem Onward.step (h : Onward c d) : Step c d := by
  cases h with
  | work h => exact .work h
  | stop h hold => exact .stop h

theorem Onward.length_stops (h : Onward c d) : d.stops.length = c.stops.length := by
  cases h with
  | work h => rw [h.of_ended.1]
  | stop h hold => exact hold

theorem remaining_of_stops (hstops : d.stops = c.stops)
    (h : d.traffic.service.remaining + d.traffic.running.toList.length + d.stage.remaining <
      c.traffic.service.remaining + c.traffic.running.toList.length + c.stage.remaining) :
    d.remaining < c.remaining := by
  rw [remaining, remaining, hstops]
  omega

/-- A round of the worker, between two tasks: it looks at its clock, fires the next task that is
due, or receives a message. -/
theorem exists_roundStep (ho : c.Accounted) (hmark : c.mark.isSome = true)
    (hstage : c.stage = .looping)
    (hr : c.traffic.running = none) : ∃ d, WorkStep c d ∧ d.remaining < c.remaining := by
  cases hworker : c.traffic.service.worker with
  | exited => exact nomatch hstage.symm.trans (ho.exited.mp hworker)
  | waking =>
    have hless := remaining_wake hworker 0
    refine ⟨_, .wake 0 hstage hr (Or.inl hworker), remaining_of_stops rfl ?_⟩
    exact Nat.add_lt_add_right (Nat.add_lt_add_right hless _) _
  | firing due => cases due with
    | cons x rest =>
      obtain ⟨s, hfire⟩ : ∃ s, c.traffic.service.fireNext? = some (x, s) :=
        ⟨_, by rw [fireNext?, hworker]⟩
      have hless := remaining_fireNext? hfire
      refine ⟨_, .fire hstage hr hfire, remaining_of_stops rfl ?_⟩
      simp only [Traffic.fire, hr, Option.toList_some, Option.toList_none, List.length_singleton,
        List.length_nil]
      omega
    | nil =>
      -- Since the service is being stopped, the channel is not empty.
      have hstop : .stop ∈ c.traffic.service.channel := (ho.stop_mem hstage).mpr hmark
      cases hchannel : c.traffic.service.channel with
      | nil =>
        rw [hchannel] at hstop
        cases hstop
      | cons m rest => cases m with
        | stop =>
          refine ⟨_, .leave hstage hr hworker hchannel, remaining_of_stops rfl ?_⟩
          simp only [TimeoutService.remaining, TimeoutService.held, hstage, hchannel, hworker,
            List.length_cons, WorkerStage.remaining]
          omega
        | schedule x deadline =>
          obtain ⟨s, hreceive, halive⟩ : ∃ s, c.traffic.service.receive? = some s ∧
            s.worker ≠ .exited := by
            rw [receive?, hworker, hchannel]
            exact ⟨_, rfl, by simp⟩
          have hless := remaining_receive? hreceive halive
          refine ⟨_, .receive hstage hr hreceive halive, remaining_of_stops rfl ?_⟩
          exact Nat.add_lt_add_right (Nat.add_lt_add_right hless _) _

/-- **The worker goes on** when it is not inside of a call, until it has ended. -/
theorem exists_workStep (ho : c.Accounted) (hmark : c.mark.isSome = true) (hinside : ¬ c.Inside)
    (hended : c.stage ≠ .ended) : ∃ d, WorkStep c d ∧ d.remaining < c.remaining := by
  cases hstage : c.stage with
  | ended => exact absurd hstage hended
  | looping =>
    cases hr : c.traffic.running with
    | none => exact exists_roundStep ho hmark hstage hr
    | some x =>
      refine ⟨_, .finish .returned hr hinside, remaining_of_stops rfl ?_⟩
      simp only [Traffic.finish, TimeoutService.finishFire, TimeoutService.retract,
        TimeoutService.remaining, TimeoutService.held, hr, Option.toList_some, Option.toList_none,
        List.length_singleton, List.length_nil]
      omega
  | left =>
    refine ⟨_, .uncount hstage, remaining_of_stops rfl ?_⟩
    simp only [TimeoutService.remaining, TimeoutService.held, hstage, WorkerStage.remaining,
      DeadlineQueue.empty, List.map_nil, List.length_nil]
    omega
  | uncounted =>
    refine ⟨_, .close hstage, remaining_of_stops rfl ?_⟩
    simp only [TimeoutService.remaining, TimeoutService.held, hstage, WorkerStage.remaining]
    omega
  | closed =>
    refine ⟨_, .terminate hstage, remaining_of_stops rfl ?_⟩
    simp only [TimeoutService.remaining, TimeoutService.held, hstage, WorkerStage.remaining,
      List.length_nil]
    omega

/-- A call goes on, and gets nearer to its end. -/
theorem remaining_of_replaced {old new : StopStage} (h : c.stops = before ++ ⟨thread, old⟩ :: after)
    (hstops : d.stops = before ++ ⟨thread, new⟩ :: after)
    (hrunning : d.traffic.running = c.traffic.running)
    (hstage : d.stage = c.stage)
    (hless : d.traffic.service.remaining + new.remaining <
      c.traffic.service.remaining + old.remaining) :
    d.remaining < c.remaining := by
  rw [remaining, remaining, h, hstops, hrunning, hstage]
  simp only [List.map_append, List.map_cons, List.sum_append, List.sum_cons]
  omega

/-- A call that goes on crosses no other, unless it begins to wait for the worker. -/
theorem not_crossed_of_replaced {old new : StopStage}
    (h : c.stops = before ++ ⟨thread, old⟩ :: after)
    (hstops : d.stops = before ++ ⟨thread, new⟩ :: after) (hold : old ≠ .returned)
    (hx : ¬ c.Crossed)
    (hnew : new = .joining → ¬ c.Inside) : ¬ d.Crossed := by
  rintro ⟨⟨p, hp, hthread, hreturned⟩, q, hq, hjoining⟩
  have hinside : c.Inside := by
    rw [hstops] at hp
    rcases mem_or_eq_of_mem_replaced hp with hp | rfl
    · exact ⟨p, h ▸ hp, hthread, hreturned⟩
    · exact ⟨⟨thread, old⟩, h ▸ List.mem_append_right _ List.mem_cons_self, hthread, hold⟩
  rw [hstops] at hq
  rcases mem_or_eq_of_mem_replaced hq with hq | rfl
  · exact hx ⟨hinside, q, h ▸ hq, hjoining⟩
  · exact hnew hjoining hinside

theorem length_replaced {old new : StopStage} :
    (before ++ ⟨thread, new⟩ :: after).length =
    (before ++ ⟨thread, old⟩ :: after : List StopCall).length := by
  simp

/-- **A call goes on** that has not got the lock yet, when the lock is free. -/
theorem exists_stopStep (hx : ¬ c.Crossed) (hl : ¬ c.Locked) {p : StopCall} (hp : p ∈ c.stops)
    (hreturned : p.stage ≠ .returned) (hinside : c.Inside → p.thread = .worker) :
    ∃ d, Onward c d ∧ ¬ d.Crossed ∧ d.remaining < c.remaining := by
  obtain ⟨thread, stage⟩ := p
  obtain ⟨before, after, h⟩ := List.append_of_mem hp
  cases stage with
  | returned => exact absurd rfl hreturned
  | joining => exact absurd ⟨_, hp, Or.inl rfl⟩ hl
  | leaving => exact absurd ⟨_, hp, Or.inr rfl⟩ hl
  | refused =>
    have hsend := remaining_send c.traffic.service .stop
    refine ⟨_, .stop (.post before h) (h ▸ length_replaced),
      not_crossed_of_replaced h rfl (by simp) hx (by simp),
      remaining_of_replaced h rfl rfl rfl ?_⟩
    simp only [StopStage.remaining]
    omega
  | posted =>
    refine ⟨_, .stop (.take before h hl) (h ▸ length_replaced),
      not_crossed_of_replaced h rfl (by simp) hx ?_,
      remaining_of_replaced h rfl rfl rfl ?_⟩
    · intro hnew hin
      have hworker := hinside hin
      simp at hworker
      simp [hworker] at hnew
    · split_ifs <;> simp [StopStage.remaining]

/-- **Somebody goes on** as long as a call is in progress and no two calls cross: who is about to
give the lock back, or the worker that is waited for, or a call that can get the lock. -/
theorem exists_onward (hd : c.Disciplined) (ho : c.Accounted) (hx : ¬ c.Crossed)
    (hp : ∃ p ∈ c.stops, p.stage ≠ .returned) :
    ∃ d, Onward c d ∧ ¬ d.Crossed ∧ d.remaining < c.remaining := by
  by_cases hl : c.Locked
  · obtain ⟨⟨thread, stage⟩, hp, rfl | rfl⟩ := hl
    · have hinside : ¬ c.Inside := fun hin => hx ⟨hin, _, hp, rfl⟩
      by_cases hended : c.stage = .ended
      · have hexited : c.traffic.service.isExited = true := by
          rw [isExited, ho.exited.mpr hended]
        obtain ⟨before, after, h⟩ := List.append_of_mem hp
        exact ⟨_, .stop (.join before h hexited) (h ▸ length_replaced),
          not_crossed_of_replaced h rfl (by simp) hx (by simp),
          remaining_of_replaced h rfl rfl rfl (by simp [StopStage.remaining])⟩
      · obtain ⟨d, hwork, hless⟩ := exists_workStep ho (hd.marked _ hp (by simp)) hinside hended
        refine ⟨d, .work hwork, fun hcrossed => hinside ?_, hless⟩
        have hin := hcrossed.1
        rwa [Inside, hwork.of_ended.1] at hin
    · obtain ⟨before, after, h⟩ := List.append_of_mem hp
      exact ⟨_, .stop (.release before h) (h ▸ length_replaced),
        not_crossed_of_replaced h rfl (by simp) hx (by simp),
        remaining_of_replaced h rfl rfl rfl (by simp [StopStage.remaining])⟩
  · -- The call of the task that is being fired goes first: another one would get the lock and wait.
    by_cases hinside : c.Inside
    · obtain ⟨p, hp, hthread, hreturned⟩ := hinside
      exact exists_stopStep hx hl hp hreturned fun _ => hthread
    · obtain ⟨p, hp, hreturned⟩ := hp
      exact exists_stopStep hx hl hp hreturned fun hin => absurd hin hinside

/-- **All calls return** that are in progress, if they and the worker go on as they can. -/
theorem exists_returned (hd : c.Disciplined) (ho : c.Accounted) (hx : ¬ c.Crossed) :
    ∃ d, Relation.ReflTransGen Onward c d ∧ d.stops.length = c.stops.length ∧
      ∀ p ∈ d.stops, p.stage = .returned := by
  induction hn : c.remaining using Nat.strong_induction_on generalizing c with
  | _ n ih =>
    by_cases hp : ∃ p ∈ c.stops, p.stage ≠ .returned
    · obtain ⟨d, hstep, hcrossed, hless⟩ := exists_onward hd ho hx hp
      obtain ⟨e, hsteps, hlength, hreturned⟩ :=
        ih d.remaining (hn ▸ hless) (hd.step hstep.step) (ho.step hstep.step) hcrossed rfl
      exact ⟨e, .head hstep hsteps, hlength.trans hstep.length_stops, hreturned⟩
    · push Not at hp
      exact ⟨c, .refl, rfl, hp⟩

end Progress

/-- **When calls to stop return.** Two calls that cross come to wait for each other. Another thread
has the handle then, and whatever happens, the worker takes no step any more and does not end, and
no task is fired. Otherwise all calls that are in progress can return, and it takes no more than
steps of their own and of the worker. -/
theorem stop_returns_unless_crossed {config : TimeoutConfig} {s : TimeoutService (Call τ)}
    (hs : make config = .ok s) {c : Shutdown τ}
    (h : Relation.ReflTransGen Step { traffic := { service := s } } c) :
    (c.Deadlocked → c.Crossed) ∧
      (c.Crossed → (∃ d, Relation.ReflTransGen Step c d ∧ d.Deadlocked) ∧ c.taker = some .other ∧
        ∀ d, Relation.ReflTransGen Step c d →
          d.Crossed ∧ d.fired = c.fired ∧ d.traffic.service.isExited = false ∧
            ∀ e, ¬ WorkStep d e) ∧
      (¬ c.Crossed → ∃ d, Relation.ReflTransGen Onward c d ∧ d.stops.length = c.stops.length ∧
        ∀ p ∈ d.stops, p.stage = .returned) := by
  have ho := (accounted_start hs).steps h
  have hd := (disciplined_start s).steps h
  refine ⟨Deadlocked.crossed, ?_, exists_returned hd ho⟩
  intro hx
  obtain ⟨q, hq, hjoining⟩ := hx.2
  refine ⟨hx.exists_deadlocked hd, (hd.joining q hq hjoining).2, ?_⟩
  intro d hsteps
  obtain ⟨hcrossed, hfired⟩ := hx.steps hd ho hsteps
  have hd' := hd.steps hsteps
  have ho' := ho.steps hsteps
  exact ⟨hcrossed, hfired, hcrossed.not_exited hd' ho', fun _ => hcrossed.not_workStep hd' ho'⟩

/-- A task is being fired, and another thread stops the service. As long as the task does not call
to stop it, the one call can return. As soon as it does, the second task that is due is never
fired. -/
theorem stop_returns_unless_crossed_twice :
    ∃ (s : TimeoutService (Call String)) (c d : Shutdown String),
      make {} = .ok s ∧ Relation.ReflTransGen Step { traffic := { service := s } } c ∧
        c.stops = [⟨.other, .joining⟩] ∧ c.traffic.service.due.map (·.task) = ["second"] ∧
        (∃ e, Relation.ReflTransGen Onward c e ∧ e.stops.length = 1 ∧
          ∀ p ∈ e.stops, p.stage = .returned) ∧
        Step c d ∧ d.stops = [⟨.worker, .refused⟩, ⟨.other, .joining⟩] ∧
        ∀ e, Relation.ReflTransGen Step d e → e.fired.map (·.task) = ["first"] := by
  let s : TimeoutService (Call String) :=
    { name := "precipice-timeout", maxTimeout := 86400000000000 }
  let first : Call String := ⟨0, "first", ⟨5⟩, 0⟩
  let second : Call String := ⟨1, "second", ⟨5⟩, 0⟩
  let one : TimeoutService (Call String) :=
    { s with pending := 2, channel := [.schedule second 5], queue := ⟨[⟨5, first⟩]⟩ }
  let both : TimeoutService (Call String) :=
    { s with pending := 2, queue := ⟨[⟨5, first⟩, ⟨5, second⟩]⟩ }
  let firing : TimeoutService (Call String) := { s with pending := 2, worker := .firing [second] }
  let c : Shutdown String := {
    traffic := {
      service := { firing with accepting := false, channel := [.stop] }
      made := 2
      sent := [first, second]
      past := [⟨0, [], []⟩, ⟨0, [], []⟩]
      current := some ⟨5, [first, second], [first]⟩
      running := some first }
    mark := some 2
    stops := [⟨.other, .joining⟩]
    taker := some .other }
  have hs : make {} = .ok s := by decide +kernel
  have hrun : Relation.ReflTransGen Step { traffic := { service := s } } c :=
    .head (.call (.enter "first" ⟨5⟩ 0 rfl)) <| .head (.call (.count [] rfl)) <|
    .head (.call (.send [] rfl rfl)) <| .head (.call (.enter "second" ⟨5⟩ 0 rfl)) <|
    .head (.call (.count [] rfl)) <| .head (.call (.send [] rfl rfl)) <|
    .head (.work (.wake 0 rfl rfl (Or.inl rfl))) <|
    .head (.work (.receive (s := one) rfl rfl (by decide +kernel) (by decide))) <|
    .head (.work (.wake 0 rfl rfl (Or.inl rfl))) <|
    .head (.work (.receive (s := both) rfl rfl (by decide +kernel) (by decide))) <|
    .head (.work (.wake 5 rfl rfl (Or.inl rfl))) <|
    .head (.work (.fire (x := first) (s := firing) rfl rfl (by decide +kernel))) <|
    .head (.stop (.refuse .other fun heq => nomatch heq)) <| .head (.stop (.post [] rfl)) <|
    .head (.stop (.take [] rfl (by decide))) .refl
  have hcross : Step c { c with stops := ⟨.worker, .refused⟩ :: c.stops } :=
    .stop (.refuse .worker fun _ => ⟨rfl, by decide⟩)
  have hreturns := (stop_returns_unless_crossed hs hrun).2.2 (by decide)
  have hcrossed := (stop_returns_unless_crossed hs (hrun.tail hcross)).2.1 (by decide)
  refine ⟨s, _, _, hs, hrun, rfl, rfl, hreturns, hcross, rfl, ?_⟩
  intro e he
  rw [(hcrossed.2.2 e he).2.1]
  rfl

/-- A task is being fired while another thread stops the service, and then it stops the service
itself. The worker waits for the lock of the other thread, which waits for the worker. -/
theorem stops_deadlock :
    ∃ (s : TimeoutService (Call String)) (c : Shutdown String),
      make {} = .ok s ∧ Relation.ReflTransGen Step { traffic := { service := s } } c ∧
        c.Deadlocked := by
  let s : TimeoutService (Call String) :=
    { name := "precipice-timeout", maxTimeout := 86400000000000 }
  let task : Call String := ⟨0, "inside", ⟨5⟩, 0⟩
  let held : TimeoutService (Call String) := { s with pending := 1, queue := ⟨[⟨5, task⟩]⟩ }
  let firing : Shutdown String := { traffic := {
    service := { s with pending := 1, worker := .firing [] }
    made := 1
    sent := [task]
    past := [⟨0, [], []⟩]
    current := some ⟨5, [task], [task]⟩
    running := some task } }
  have hrun : Relation.ReflTransGen Step { traffic := { service := s } } firing :=
    .head (.call (.enter "inside" ⟨5⟩ 0 rfl)) <| .head (.call (.count [] rfl)) <|
    .head (.call (.send [] rfl rfl)) <| .head (.work (.wake 0 rfl rfl (Or.inl rfl))) <|
    .head (.work (.receive (s := held) rfl rfl (by decide +kernel) (by decide))) <|
    .head (.work (.wake 5 rfl rfl (Or.inl rfl))) <|
    .head (.work (.fire (x := task) (s := firing.traffic.service) rfl rfl (by decide +kernel)))
      .refl
  obtain ⟨c, hsteps, hdeadlocked⟩ :=
    exists_deadlocked_of_running (c := firing) rfl (by decide) (by decide) rfl
  exact ⟨s, c, by decide +kernel, hrun.trans hsteps, hdeadlocked⟩

end Shutdown

end TimeoutService

end Admission
