import Admission.Proofs.Deadline.Shutdown
import Mathlib.Data.List.Perm.Subperm

/-!
# Where tasks are while a timeout service is stopped

The counter of pending tasks counts those with their callers, the one that is being fired, those
that the worker can still fire, and those that were sent behind the first message to stop. The
worker takes back the counts of what it drops from its queue. Nobody takes back those of the
messages that it leaves in the channel, so these tasks stay pending when the worker has ended.

## Main definitions

* `Shutdown.Accounted`: where tasks are at all times

## Main results

* `Accounted.step`, `Accounted.steps`: this is kept by each step, and by any steps
* `Accounted.pending_of_ended`: what is pending once the worker has ended
* `Accounted.of_ended`: from then on nothing is fired, and nothing is sent
-/

namespace Admission

namespace TimeoutService

variable {τ : Type}

namespace Shutdown

/-- Where tasks are at all times. A task that is counted is with its caller, or is being fired, or
can still be fired, or was sent behind a message to stop. A task that has been fired, or can still
be, was sent before. -/
structure Accounted (c : Shutdown τ) : Prop where
  refusing : c.stops ≠ [] → c.traffic.service.accepting = false
  mark_le : ∀ n ∈ c.mark, n ≤ c.traffic.sent.length
  stop_mem : c.stage = .looping → (.stop ∈ c.traffic.service.channel ↔ c.mark.isSome = true)
  marked : c.stage ≠ .looping → c.mark.isSome = true
  resting : c.stage ≠ .looping → c.traffic.running = none ∧ c.traffic.service.due = []
  emptied : c.stage ≠ .looping → c.stage ≠ .left → c.traffic.service.held = []
  exited : c.traffic.service.worker = .exited ↔ c.stage = .ended
  pending : c.traffic.service.pending = c.traffic.counted.length + c.failed.length +
    c.traffic.running.toList.length + c.upcoming.length + c.behind.length
  fired : (c.fired ++ c.upcoming).Subperm c.ahead

section Callers

variable {c d : Shutdown τ} {x : Call τ} {before after : List (Call τ)}
    {s : TimeoutService (Call τ)}

/-- Before anybody has sent a message to stop, a task that is sent will be received, and later it is
behind. -/
theorem Accounted.places_of_send (ho : c.Accounted) (hmark : d.mark = c.mark)
    (hstage : d.stage = c.stage)
    (hsent : d.traffic.sent = c.traffic.sent ++ [x])
    (hchannel : d.traffic.service.channel = c.traffic.service.channel ++ [c.traffic.message x]) :
    (d.front = c.front ++ [x] ∧ d.behind = c.behind ∧ d.ahead = c.ahead ++ [x]) ∨
      (d.front = c.front ∧ d.behind = c.behind ++ [x] ∧ d.ahead = c.ahead) := by
  unfold front behind ahead
  rw [hmark, hstage, hsent, hchannel]
  cases hm : c.mark with
  | none =>
    have hlooping : c.stage = .looping := by
      by_contra hne
      have hmarked := ho.marked hne
      rw [hm] at hmarked
      cases hmarked
    have hstop : .stop ∉ c.traffic.service.channel := by
      rw [ho.stop_mem hlooping, hm]
      exact Bool.false_ne_true
    refine Or.inl ⟨?_, rfl, rfl⟩
    rw [hlooping]
    exact Message.inFront_append_of_notMem hstop
  | some n =>
    have hle := ho.mark_le n hm
    refine Or.inr ⟨?_, List.drop_append_of_le_length hle, List.take_append_of_le_length hle⟩
    cases hs : c.stage with
    | looping => exact Message.inFront_append_of_mem ((ho.stop_mem hs).mpr (by rw [hm]; rfl))
    | left | uncounted | closed | ended => rfl

/-- A task that is sent is still counted. -/
theorem Accounted.send (ho : c.Accounted) (h : c.traffic.counted = before ++ x :: after)
    (hs : c.traffic.service.send (c.traffic.message x) = some s) :
    Accounted { c with
      traffic.service := s
      traffic.counted := before ++ after
      traffic.sent := c.traffic.sent ++ [x] } := by
  obtain rfl := eq_of_send hs
  let d : Shutdown τ := { c with
    traffic.service.channel := c.traffic.service.channel ++ [c.traffic.message x]
    traffic.counted := before ++ after
    traffic.sent := c.traffic.sent ++ [x] }
  have hplaces : (d.upcoming = c.upcoming ++ [x] ∧ d.behind = c.behind ∧ d.ahead = c.ahead ++ [x]) ∨
      (d.upcoming = c.upcoming ∧ d.behind = c.behind ++ [x] ∧ d.ahead = c.ahead) := by
    refine (ho.places_of_send (d := d) rfl rfl rfl rfl).imp (And.imp_left fun hfront => ?_)
      (And.imp_left fun hfront => ?_)
    · rw [upcoming, hfront, ← List.append_assoc, ← List.append_assoc, List.append_assoc _ _ c.front]
      rfl
    · rw [upcoming, hfront]
      rfl
  exact {
    __ := ho
    mark_le := by
      intro n hn
      show n ≤ (c.traffic.sent ++ [x]).length
      rw [List.length_append]
      exact Nat.le_add_right_of_le (ho.mark_le n hn)
    stop_mem := by
      intro hstage
      refine Iff.trans ?_ (ho.stop_mem hstage)
      simp [Traffic.message]
    pending := by
      have hpending := ho.pending
      have hcounted := congrArg List.length h
      show c.traffic.service.pending = (before ++ after).length + c.failed.length +
        c.traffic.running.toList.length + d.upcoming.length + d.behind.length
      rw [List.length_append, List.length_cons] at hcounted
      rw [List.length_append]
      rcases hplaces with ⟨hupcoming, hbehind, -⟩ | ⟨hupcoming, hbehind, -⟩
      · rw [hupcoming, hbehind, List.length_append, List.length_singleton]
        omega
      · rw [hupcoming, hbehind, List.length_append, List.length_singleton]
        omega
    fired := by
      show (c.fired ++ d.upcoming).Subperm d.ahead
      rcases hplaces with ⟨hupcoming, -, hahead⟩ | ⟨hupcoming, -, hahead⟩
      · rw [hupcoming, hahead, ← List.append_assoc]
        exact (List.subperm_append_right [x]).mpr ho.fired
      · rw [hupcoming, hahead]
        exact ho.fired }

/-- A task that is counted is pending until its count is taken back. -/
theorem Accounted.of_callStep (ho : c.Accounted) (h : CallStep c d) : d.Accounted := by
  have hpending := ho.pending
  cases h with
  | enter task timeout now h => exact { ho with }
  | count before h =>
    exact {
      __ := ho
      pending := by
        show c.traffic.service.pending + 1 = c.traffic.counted.length + 1 + c.failed.length +
          c.traffic.running.toList.length + c.upcoming.length + c.behind.length
        omega }
  | send before h hs => exact ho.send h hs
  | @fail before after x h hs =>
    have hcounted := congrArg List.length h
    rw [List.length_append, List.length_cons] at hcounted
    exact {
      __ := ho
      pending := by
        show c.traffic.service.pending = (before ++ after).length + (c.failed.length + 1) +
          c.traffic.running.toList.length + c.upcoming.length + c.behind.length
        rw [List.length_append]
        omega }
  | @retract before after x h =>
    have hfailed := congrArg List.length h
    rw [List.length_append, List.length_cons] at hfailed
    exact {
      __ := ho
      pending := by
        show c.traffic.service.pending - 1 = c.traffic.counted.length + (before ++ after).length +
          c.traffic.running.toList.length + c.upcoming.length + c.behind.length
        rw [List.length_append]
        omega }

end Callers

section Worker

variable {c d : Shutdown τ} {x : Call τ} {s : TimeoutService (Call τ)}

theorem upcoming_of_ne (h : c.stage ≠ .looping) :
    c.upcoming = c.traffic.service.due ++ c.traffic.service.held := by
  unfold upcoming front
  split
  · exact absurd ‹c.stage = .looping› h
  · rw [List.append_nil]

theorem ne_ended_of_looping (h : c.stage = .looping) : c.stage ≠ .ended := by
  rw [h]
  decide

/-- What is due is taken out of the queue. -/
theorem Accounted.wake (ho : c.Accounted) (now : UInt64) (hstage : c.stage = .looping)
    (h : c.traffic.service.Awake) : Accounted { c with traffic := c.traffic.wake now } := by
  let d : Shutdown τ := { c with traffic := c.traffic.wake now }
  have hupcoming : d.upcoming = c.upcoming := by
    rw [upcoming, upcoming, h.due_eq, c.traffic.service.held_wake now, List.nil_append,
      List.append_assoc]
    rfl
  exact {
    __ := ho
    resting := fun hne => absurd hstage hne
    emptied := fun hne => absurd hstage hne
    exited := iff_of_false (by rintro ⟨⟩) (ne_ended_of_looping hstage)
    pending := hupcoming ▸ ho.pending
    fired := hupcoming ▸ ho.fired }

/-- What is fired was due. -/
theorem Accounted.fire (ho : c.Accounted) (hstage : c.stage = .looping)
    (hr : c.traffic.running = none) (h : c.traffic.service.fireNext? = some (x, s)) :
    Accounted { c with traffic := c.traffic.fire x s } := by
  obtain ⟨rest, hworker, rfl⟩ := worker_of_fireNext? h
  let d : Shutdown τ := { c with
    traffic := c.traffic.fire x { c.traffic.service with worker := .firing rest } }
  have hupcoming : c.upcoming = x :: d.upcoming := by
    rw [upcoming, due, hworker]
    rfl
  exact {
    __ := ho
    resting := fun hne => absurd hstage hne
    emptied := fun hne => absurd hstage hne
    exited := iff_of_false (by rintro ⟨⟩) (ne_ended_of_looping hstage)
    pending := by
      have hpending := ho.pending
      rw [hr, hupcoming, List.length_cons] at hpending
      show c.traffic.service.pending = c.traffic.counted.length + c.failed.length + 1 +
        d.upcoming.length + c.behind.length
      rw [hpending, Option.toList_none, List.length_nil]
      omega
    fired := by
      have hfired := ho.fired
      rw [Shutdown.fired, hr, hupcoming, Option.toList_none, List.append_nil] at hfired
      show (c.traffic.finished.map (·.1) ++ [x] ++ d.upcoming).Subperm c.ahead
      rw [List.append_assoc]
      exact hfired }

/-- A task is pending until it has been fired to the end. -/
theorem Accounted.finish (ho : c.Accounted) (ending : Ending) (hr : c.traffic.running = some x) :
    Accounted { c with traffic := c.traffic.finish x ending } where
  __ := ho
  resting := fun hne => ⟨rfl, (ho.resting hne).2⟩
  pending := by
    have hpending := ho.pending
    rw [hr, Option.toList_some, List.length_singleton] at hpending
    show c.traffic.service.pending - 1 = c.traffic.counted.length + c.failed.length + 0 +
      c.upcoming.length + c.behind.length
    omega
  fired := by
    have hfired := ho.fired
    rw [Shutdown.fired, hr] at hfired
    show ((c.traffic.finished ++ [(x, ending)]).map Prod.fst ++ [] ++ c.upcoming).Subperm c.ahead
    rw [List.map_append, List.append_nil]
    exact hfired

/-- What is received goes from the channel to the queue. -/
theorem Accounted.receive (ho : c.Accounted) (hstage : c.stage = .looping)
    (h : c.traffic.service.receive? = some s) (hs : s.worker ≠ .exited) :
    Accounted { c with traffic.service := s } := by
  obtain ⟨hworker, m, rest, hchannel, hschedule⟩ := exists_of_receive? h
  cases m with
  | stop =>
    rw [receive?, hworker, hchannel] at h
    cases h
    exact absurd rfl hs
  | schedule x deadline =>
    obtain rfl := hschedule x deadline rfl
    let d : Shutdown τ := { c with
      traffic.service.channel := rest
      traffic.service.queue := c.traffic.service.queue.push x deadline
      traffic.service.worker := .waking }
    have hupcoming : d.upcoming.Perm c.upcoming := by
      have hheld : d.traffic.service.held.Perm (x :: c.traffic.service.held) :=
        (DeadlineQueue.insert_perm ⟨deadline, x⟩ c.traffic.service.queue.entries).map Timed.task
      have hfront : c.front = x :: d.front := by
        rw [front, front, show d.stage = _ from hstage, hchannel]
        rfl
      rw [upcoming, upcoming, hfront, due, due, hworker]
      exact (hheld.append_right d.front).trans List.perm_middle.symm
    exact {
      __ := ho
      stop_mem := by
        intro hlooping
        have hstop := ho.stop_mem hlooping
        rw [hchannel, List.mem_cons] at hstop
        exact Iff.trans ⟨Or.inr, fun hmem => hmem.resolve_left (by rintro ⟨⟩)⟩ hstop
      resting := fun hne => absurd hstage hne
      emptied := fun hne => absurd hstage hne
      exited := iff_of_false (by rintro ⟨⟩) (ne_ended_of_looping hstage)
      pending := hupcoming.length_eq ▸ ho.pending
      fired := (hupcoming.append_left c.fired).subperm_right.mpr ho.fired }

/-- A worker that receives a message to stop leaves the messages behind it in the channel. -/
theorem Accounted.leave (ho : c.Accounted) {rest : List (Message (Call τ))}
    (hstage : c.stage = .looping)
    (hr : c.traffic.running = none) (hw : c.traffic.service.worker = .firing [])
    (h : c.traffic.service.channel = .stop :: rest) :
    Accounted { c with traffic.service.channel := rest, stage := .left } := by
  let d : Shutdown τ := { c with traffic.service.channel := rest, stage := .left }
  have hupcoming : d.upcoming = c.upcoming := by
    rw [upcoming, upcoming, front, front, hstage, h]
    rfl
  exact {
    __ := ho
    stop_mem := fun heq => nomatch heq
    marked := fun _ => (ho.stop_mem hstage).mp (h ▸ List.mem_cons_self)
    resting := fun _ => ⟨hr, by rw [due, hw]⟩
    emptied := fun _ hne => absurd rfl hne
    exited := iff_of_false (mt ho.exited.mp (ne_ended_of_looping hstage)) fun heq => nomatch heq
    pending := hupcoming ▸ ho.pending
    fired := hupcoming ▸ ho.fired }

/-- The tasks in the queue are dropped, and are pending no more. -/
theorem Accounted.uncount (ho : c.Accounted) (hstage : c.stage = .left) :
    Accounted { c with
      traffic.service.pending := c.traffic.service.pending - c.traffic.service.queue.size
      traffic.service.queue := .empty
      stage := .uncounted } := by
  obtain ⟨hne, hended⟩ : c.stage ≠ .looping ∧ c.stage ≠ .ended := by
    rw [hstage]
    decide
  obtain ⟨hr, hdue⟩ := ho.resting hne
  have hupcoming : c.upcoming = c.traffic.service.held := by
    rw [upcoming_of_ne hne, hdue]
    rfl
  let d : Shutdown τ := { c with
    traffic.service.pending := c.traffic.service.pending - c.traffic.service.queue.size
    traffic.service.queue := .empty
    stage := .uncounted }
  have hdropped : d.upcoming = [] := by
    rw [upcoming_of_ne (c := d) (fun heq => nomatch heq), show d.traffic.service.due = _ from hdue]
    rfl
  exact {
    __ := ho
    stop_mem := fun heq => nomatch heq
    marked := fun _ => ho.marked hne
    resting := fun _ => ⟨hr, hdue⟩
    emptied := fun _ _ => rfl
    exited := iff_of_false (mt ho.exited.mp hended) fun heq => nomatch heq
    pending := by
      have hpending := ho.pending
      have hheld : c.traffic.service.held.length = c.traffic.service.queue.size := List.length_map _
      rw [hupcoming, hheld] at hpending
      show c.traffic.service.pending - c.traffic.service.queue.size = c.traffic.counted.length +
        c.failed.length + c.traffic.running.toList.length + d.upcoming.length + c.behind.length
      rw [hdropped, List.length_nil]
      omega
    fired := by
      show (c.fired ++ d.upcoming).Subperm c.ahead
      rw [hdropped]
      exact ((List.nil_sublist c.upcoming).append_left c.fired).subperm.trans ho.fired }

/-- On its way out the worker lets no more callers in. -/
theorem Accounted.close (ho : c.Accounted) (hstage : c.stage = .uncounted) :
    Accounted { c with traffic.service.accepting := false, stage := .closed } := by
  obtain ⟨hne, hleft, hended⟩ : c.stage ≠ .looping ∧ c.stage ≠ .left ∧ c.stage ≠ .ended := by
    rw [hstage]
    decide
  let d : Shutdown τ := { c with traffic.service.accepting := false, stage := .closed }
  have hupcoming : d.upcoming = c.upcoming :=
    (upcoming_of_ne (c := d) fun heq => nomatch heq).trans (upcoming_of_ne hne).symm
  exact {
    __ := ho
    refusing := fun _ => rfl
    stop_mem := fun heq => nomatch heq
    marked := fun _ => ho.marked hne
    resting := fun _ => ho.resting hne
    emptied := fun _ _ => ho.emptied hne hleft
    exited := iff_of_false (mt ho.exited.mp hended) fun heq => nomatch heq
    pending := hupcoming ▸ ho.pending
    fired := hupcoming ▸ ho.fired }

/-- The tasks that are left in the channel stay pending. -/
theorem Accounted.terminate (ho : c.Accounted) (hstage : c.stage = .closed) :
    Accounted { c with
      traffic.service.channel := []
      traffic.service.worker := .exited
      stage := .ended } := by
  obtain ⟨hne, hleft⟩ : c.stage ≠ .looping ∧ c.stage ≠ .left := by
    rw [hstage]
    decide
  obtain ⟨hr, hdue⟩ := ho.resting hne
  let d : Shutdown τ := { c with
    traffic.service.channel := []
    traffic.service.worker := .exited
    stage := .ended }
  have hupcoming : d.upcoming = c.upcoming := by
    rw [upcoming_of_ne (c := d) (fun heq => nomatch heq), upcoming_of_ne hne, hdue]
    rfl
  exact {
    __ := ho
    stop_mem := fun heq => nomatch heq
    marked := fun _ => ho.marked hne
    resting := fun _ => ⟨hr, rfl⟩
    emptied := fun _ _ => ho.emptied hne hleft
    exited := iff_of_true rfl rfl
    pending := hupcoming ▸ ho.pending
    fired := hupcoming ▸ ho.fired }

/-- What the worker does keeps every task in its place or moves it on. -/
theorem Accounted.of_workStep (ho : c.Accounted) (h : WorkStep c d) : d.Accounted := by
  cases h with
  | wake now hstage hr h => exact ho.wake now hstage h
  | fire hstage hr h => exact ho.fire hstage hr h
  | finish ending hr h => exact ho.finish ending hr
  | receive hstage hr h hs => exact ho.receive hstage h hs
  | leave hstage hr hw h => exact ho.leave hstage hr hw h
  | uncount hstage => exact ho.uncount hstage
  | close hstage => exact ho.close hstage
  | terminate hstage => exact ho.terminate hstage

end Worker

section Stops

variable {c d : Shutdown τ} {before after : List StopCall} {thread : Thread}

/-- The mark is set once, behind all tasks that have been sent. -/
theorem ahead_of_mark (hsent : d.traffic.sent = c.traffic.sent)
    (hmark : d.mark = c.mark.or (some c.traffic.sent.length)) : d.ahead = c.ahead := by
  unfold ahead
  rw [hmark, hsent]
  cases c.mark with
  | none => exact List.take_length
  | some n => rfl

theorem behind_of_mark (hsent : d.traffic.sent = c.traffic.sent)
    (hmark : d.mark = c.mark.or (some c.traffic.sent.length)) : d.behind = c.behind := by
  unfold behind
  rw [hmark, hsent]
  cases c.mark with
  | none => exact List.drop_length
  | some n => rfl

/-- A message to stop is in front of no task. -/
theorem front_of_append_stop (hstage : d.stage = c.stage)
    (hchannel : d.traffic.service.channel = c.traffic.service.channel ++ [.stop]) :
    d.front = c.front := by
  unfold front
  rw [hstage, hchannel, Message.inFront_append_stop]

/-- A message to stop is sent into the channel, if anybody receives messages. -/
theorem Accounted.post (ho : c.Accounted) (h : c.stops = before ++ ⟨thread, .refused⟩ :: after) :
    Accounted { c with
      traffic.service := (c.traffic.service.send .stop).getD c.traffic.service
      mark := c.mark.or (some c.traffic.sent.length)
      stops := before ++ ⟨thread, .posted⟩ :: after } := by
  have hrefusing : c.traffic.service.accepting = false := ho.refusing (by rw [h]; simp)
  have hmarked : (c.mark.or (some c.traffic.sent.length)).isSome = true := by simp
  have hle : ∀ n ∈ c.mark.or (some c.traffic.sent.length), n ≤ c.traffic.sent.length := by
    intro n hn
    rcases Option.or_eq_some_iff.mp hn with hn | ⟨-, hn⟩
    · exact ho.mark_le n hn
    · exact (Option.some.inj hn).ge
  have hpending := ho.pending
  have hfired := ho.fired
  by_cases hw : c.traffic.service.worker = .exited
  · have hsend : (c.traffic.service.send .stop).getD c.traffic.service = c.traffic.service := by
      rw [TimeoutService.send, isExited, hw]
      rfl
    rw [hsend]
    let d : Shutdown τ := { c with
      mark := c.mark.or (some c.traffic.sent.length)
      stops := before ++ ⟨thread, .posted⟩ :: after }
    have hahead : d.ahead = c.ahead := ahead_of_mark rfl rfl
    have hbehind : d.behind = c.behind := behind_of_mark rfl rfl
    exact {
      __ := ho
      refusing := fun _ => hrefusing
      mark_le := hle
      stop_mem := fun heq => absurd ((ho.exited.mp hw).symm.trans heq) (by decide)
      marked := fun _ => hmarked
      pending := hbehind ▸ hpending
      fired := hahead ▸ hfired }
  · rw [send_of_alive .stop hw]
    let d : Shutdown τ := { c with
      traffic.service.channel := c.traffic.service.channel ++ [.stop]
      mark := c.mark.or (some c.traffic.sent.length)
      stops := before ++ ⟨thread, .posted⟩ :: after }
    have hahead : d.ahead = c.ahead := ahead_of_mark rfl rfl
    have hbehind : d.behind = c.behind := behind_of_mark rfl rfl
    have hfront : d.front = c.front := front_of_append_stop rfl rfl
    have hupcoming : d.upcoming = c.upcoming := by
      rw [upcoming, hfront]
      rfl
    exact {
      __ := ho
      refusing := fun _ => hrefusing
      mark_le := hle
      stop_mem := fun _ => iff_of_true (List.mem_append_right _ (List.mem_singleton_self _)) hmarked
      marked := fun _ => hmarked
      pending := hbehind ▸ hupcoming ▸ hpending
      fired := hahead ▸ hupcoming ▸ hfired }

/-- A call to stop moves no task. -/
theorem Accounted.of_stopStep (ho : c.Accounted) (h : StopStep c d) : d.Accounted := by
  cases h with
  | refuse thread h => exact { ho with refusing := fun _ => rfl }
  | post before h => exact ho.post h
  | take before h hl =>
    exact { ho with refusing := fun _ => ho.refusing (by rw [h]; simp) }
  | join before h he =>
    exact { ho with refusing := fun _ => ho.refusing (by rw [h]; simp) }
  | release before h =>
    exact { ho with refusing := fun _ => ho.refusing (by rw [h]; simp) }

/-- The steps of all parties keep the tasks accounted for. -/
theorem Accounted.step (ho : c.Accounted) (h : Step c d) : d.Accounted := by
  cases h with
  | call h => exact ho.of_callStep h
  | work h => exact ho.of_workStep h
  | stop h => exact ho.of_stopStep h

theorem Accounted.steps (ho : c.Accounted) (h : Relation.ReflTransGen Step c d) : d.Accounted := by
  induction h with
  | refl => exact ho
  | tail hsteps hstep ih => exact ih.step hstep

end Stops

/-- At first there are no tasks. -/
theorem accounted_start {s : TimeoutService (Call τ)} {config : TimeoutConfig}
    (h : make config = .ok s) :
    Accounted { traffic := { service := s } } := by
  obtain rfl := eq_of_make h
  exact {
    refusing := fun hne => absurd rfl hne
    mark_le := fun _ hn => nomatch hn
    stop_mem := fun _ => iff_of_false List.not_mem_nil Bool.false_ne_true
    marked := fun hne => absurd rfl hne
    resting := fun hne => absurd rfl hne
    emptied := fun hne => absurd rfl hne
    exited := ⟨fun heq => (nomatch heq), fun heq => (nomatch heq)⟩
    pending := rfl
    fired := List.Subperm.refl [] }

/-! ## After the end of the worker -/

section Ended

variable {c d : Shutdown τ}

theorem Accounted.ended_of_isExited (ho : c.Accounted) (h : c.traffic.service.isExited = true) :
    c.stage = .ended := by
  refine ho.exited.mp ?_
  unfold isExited at h
  split at h
  · assumption
  · cases h

/-- Once the worker has ended, only the calls that have counted their tasks are pending, and the
tasks that were sent behind a message to stop. -/
theorem Accounted.pending_of_ended (ho : c.Accounted) (h : c.stage = .ended) :
    c.traffic.service.pending = c.traffic.counted.length + c.failed.length + c.behind.length := by
  obtain ⟨hne, hleft⟩ : c.stage ≠ .looping ∧ c.stage ≠ .left := by
    rw [h]
    decide
  obtain ⟨hr, hdue⟩ := ho.resting hne
  have hpending := ho.pending
  rw [hr, upcoming_of_ne hne, hdue, ho.emptied hne hleft] at hpending
  exact hpending

/-- **Once the worker has ended, no task is fired and no message is sent.** -/
theorem Accounted.of_ended (ho : c.Accounted) (hended : c.stage = .ended) (h : Step c d) :
    d.stage = .ended ∧ d.fired = c.fired ∧ d.behind = c.behind := by
  have hne : c.stage ≠ .looping := by
    rw [hended]
    decide
  cases h with
  | call h =>
    cases h with
    | enter task timeout now h => exact ⟨hended, rfl, rfl⟩
    | count before h => exact ⟨hended, rfl, rfl⟩
    | send before h hs =>
      rw [TimeoutService.send, isExited, ho.exited.mpr hended] at hs
      cases hs
    | fail before h hs => exact ⟨hended, rfl, rfl⟩
    | retract before h => exact ⟨hended, rfl, rfl⟩
  | work h =>
    cases h with
    | wake now hstage hr h => exact absurd hstage hne
    | fire hstage hr h => exact absurd hstage hne
    | finish ending hr h =>
      rw [(ho.resting hne).1] at hr
      cases hr
    | receive hstage hr h hs => exact absurd hstage hne
    | leave hstage hr hw h => exact absurd hstage hne
    | uncount hstage => exact absurd (hended.symm.trans hstage) (by decide)
    | close hstage => exact absurd (hended.symm.trans hstage) (by decide)
    | terminate hstage => exact absurd (hended.symm.trans hstage) (by decide)
  | stop h =>
    cases h with
    | refuse thread h => exact ⟨hended, rfl, rfl⟩
    | post before h => exact ⟨hended, rfl, behind_of_mark rfl rfl⟩
    | take before h hl => exact ⟨hended, rfl, rfl⟩
    | join before h he => exact ⟨hended, rfl, rfl⟩
    | release before h => exact ⟨hended, rfl, rfl⟩

theorem Accounted.of_ended_steps (ho : c.Accounted) (hended : c.stage = .ended)
    (h : Relation.ReflTransGen Step c d) : d.stage = .ended ∧ d.fired = c.fired ∧
      d.behind = c.behind := by
  induction h with
  | refl => exact ⟨hended, rfl, rfl⟩
  | tail hsteps hstep ih =>
    obtain ⟨hstage, hfired, hbehind⟩ := ih
    obtain ⟨hstage', hfired', hbehind'⟩ := (ho.steps hsteps).of_ended hstage hstep
    exact ⟨hstage', hfired'.trans hfired, hbehind'.trans hbehind⟩

end Ended

end Shutdown

end TimeoutService

end Admission
