import Admission.Proofs.Deadline.Traffic
import Mathlib.Data.List.Nodup
import Mathlib.Data.List.Range

/-!
# Tasks are fired once, in order, and when they are due

A timeout service fires a task at most once, and not before it is due: at the time of the call plus
the timeout, which is cut to the longest one. The tasks of one round are fired by the time when they
are due, and those that are due at one time as they were sent. A task that panics is fired to the
end like any other, so it keeps none of the others from being fired. Meanwhile the counter tells how
many tasks have been counted and not been fired to the end.

## Main definitions

* `Traffic.unfinished`: the tasks that have been counted and not been fired to the end
* `Traffic.Works`: what the worker does by itself

## Main results

* `Traffic.Orderly.exists_scheduled`: the steps of a caller, without a break
* `Traffic.Orderly.pending_eq`: what the counter tells
* `Traffic.Orderly.exists_all_fired`: the worker can fire everything, whichever tasks panic
* `timeouts_fire_once`: all of it at any time
-/

namespace Admission

namespace TimeoutService

variable {τ : Type}

namespace Traffic

section Calls

variable {limit : Duration} {t : Traffic τ} {c : Call τ}

/-- **Nobody is turned away**, and the steps of a caller without a break are those of `schedule`. -/
theorem Orderly.exists_scheduled (ho : t.Orderly limit) (task : τ) (timeout : Duration)
    (now : UInt64) :
    ∃ u, Relation.ReflTransGen Step t u ∧
      t.service.schedule ⟨t.made, task, timeout, now⟩ timeout now = .ok u.service ∧
      u.entered = t.entered ∧ u.counted = t.counted ∧
      u.sent = t.sent ++ [⟨t.made, task, timeout, now⟩] := by
  have hsend :=
    send_of_alive (s := t.service.announce) (t.message ⟨t.made, task, timeout, now⟩) ho.alive
  refine ⟨_, .head (.enter task timeout now ho.accepting) (.head (.count [] rfl)
    (.single (.send [] rfl hsend))), ?_, rfl, rfl, rfl⟩
  rw [message] at hsend
  rw [schedule, if_pos ho.accepting, hsend]
  rfl

/-- The tasks that have been counted and not been fired to the end. -/
def unfinished (t : Traffic τ) : List (Call τ) :=
  (t.counted ++ t.sent).filter fun c => c.number ∉ t.finished.map (·.1.number)

theorem length_filter_number {l done rest : List (Call τ)} (h : l.Perm (done ++ rest))
    (hl : (l.map (·.number)).Nodup) :
    (l.filter fun c => c.number ∉ done.map (·.number)).length + done.length = l.length := by
  have hparts := (h.map (·.number)).nodup_iff.mp hl
  rw [List.map_append] at hparts
  have hdone : done.filter (fun c => c.number ∉ done.map (·.number)) = [] :=
    List.filter_eq_nil_iff.mpr fun c hc => by simpa using ⟨c, hc, rfl⟩
  have hrest : rest.filter (fun c => c.number ∉ done.map (·.number)) = rest :=
    List.filter_eq_self.mpr fun c hc => decide_eq_true fun hmem =>
      List.disjoint_of_nodup_append hparts hmem (List.mem_map_of_mem hc)
  have hfiltered := (h.filter fun c => c.number ∉ done.map (·.number)).length_eq
  have hlength := h.length_eq
  rw [List.filter_append, hdone, hrest, List.nil_append] at hfiltered
  rw [List.length_append] at hlength
  omega

theorem Orderly.numbers_nodup (ho : t.Orderly limit) :
    ((t.counted ++ t.sent).map (·.number)).Nodup := by
  have hall := ho.numbers.nodup_iff.mpr List.nodup_range
  rw [List.map_append] at hall
  exact hall.of_append_right

/-- What has been fired was sent before. -/
theorem Orderly.exists_rest (ho : t.Orderly limit) :
    ∃ rest, t.sent.Perm (t.finished.map (·.1) ++ (t.running.toList ++ rest)) := by
  obtain ⟨received, hsent, hreceived⟩ := ho.received
  refine ⟨t.service.due ++ t.service.held ++ t.service.waiting, ?_⟩
  rw [hsent, ← List.append_assoc, ← List.append_assoc]
  exact (List.append_assoc .. ▸ hreceived).append_right t.service.waiting

/-- **The counter tells how many tasks have been counted and not been fired to the end.** -/
theorem Orderly.pending_eq (ho : t.Orderly limit) : t.service.pending = t.unfinished.length := by
  obtain ⟨rest, hrest⟩ := ho.exists_rest
  have hcounted : (t.counted ++ t.sent).Perm (t.finished.map (·.1) ++
      (t.counted ++ (t.running.toList ++ rest))) :=
    (hrest.append_left t.counted).trans (List.perm_append_comm_assoc _ _ _)
  have hfilter := length_filter_number hcounted ho.numbers_nodup
  have hpending := ho.pending
  rw [List.map_map, List.length_map, List.length_append] at hfilter
  show _ = ((t.counted ++ t.sent).filter fun c =>
    c.number ∉ t.finished.map ((·.number) ∘ (·.1))).length
  omega

theorem Orderly.mem_sent_of_fired (ho : t.Orderly limit) (hc : c ∈ t.rounds.flatMap (·.fired)) :
    c ∈ t.sent := by
  obtain ⟨rest, hrest⟩ := ho.exists_rest
  rw [← List.append_assoc, ← ho.fired] at hrest
  exact hrest.mem_iff.mpr (List.mem_append_left rest hc)

/-- **No task is fired twice.** -/
theorem Orderly.fired_nodup (ho : t.Orderly limit) :
    ((t.rounds.flatMap (·.fired)).map (·.number)).Nodup := by
  obtain ⟨rest, hrest⟩ := ho.exists_rest
  have hsent := ho.numbers_nodup
  rw [List.map_append] at hsent
  have hall := (hrest.map (·.number)).nodup_iff.mp hsent.of_append_right
  rw [← List.append_assoc, ← ho.fired, List.map_append] at hall
  exact hall.of_append_left

/-- Of the tasks of a round, those that have been fired are the first ones. -/
theorem Orderly.fired_sublist (ho : t.Orderly limit) {r : Round τ} (hr : r ∈ t.rounds) :
    r.fired.Sublist r.batch := by
  rcases List.mem_append.mp hr with hr | hr
  · rw [ho.past r hr]
  · rw [ho.current r (Option.mem_toList.mp hr)]
    exact List.sublist_append_left _ _

end Calls

/-! ## What the worker can do -/

section Firing

variable {limit : Duration} {t : Traffic τ}

/-- The traffic after the worker has fired some tasks to the end. -/
def fireAll (t : Traffic τ) (ends : Call τ → Ending) (tasks : List (Call τ)) : Traffic τ :=
  { t with
    service := { t.service with worker := .firing [], pending := t.service.pending - tasks.length }
    current := t.current.map fun r => { r with fired := r.fired ++ tasks }
    running := none
    finished := t.finished ++ tasks.map fun c => (c, ends c) }

/-- **The worker fires all tasks that are due, whichever of them panics.** -/
theorem steps_fireAll (ends : Call τ → Ending) {tasks : List (Call τ)} (hr : t.running = none)
    (hw : t.service.worker = .firing tasks) :
    Relation.ReflTransGen Step t (t.fireAll ends tasks) := by
  induction tasks generalizing t with
  | nil =>
    have hservice : { t.service with worker := .firing [] } = t.service := by rw [← hw]
    have hcurrent : t.current.map (fun r => { r with fired := r.fired ++ [] }) = t.current := by
      cases t.current with
      | none => rfl
      | some r => simp
    have hsame : t.fireAll ends [] = t := by
      rw [fireAll, hcurrent, List.map_nil, List.append_nil, List.length_nil, Nat.sub_zero, hservice,
        ← hr]
    rw [hsame]
  | cons c rest ih =>
    let next := (t.fire c { t.service with worker := .firing rest }).finish c (ends c)
    have hfire : t.service.fireNext? = some (c, { t.service with worker := .firing rest }) := by
      rw [fireNext?, hw]
    have hsame : next.fireAll ends rest = t.fireAll ends (c :: rest) := by
      simp [next, fireAll, finish, fire, finishFire, retract, Function.comp_def, Nat.sub_sub,
        Nat.add_comm]
    rw [← hsame]
    exact .head (.fire hr hfire) (.head (.finish (ends c) rfl) (ih rfl rfl))

/-- The worker alone leads from one traffic to another, and the tasks that it fires meanwhile end as
they are told to. -/
structure Works (t : Traffic τ) (ends : Call τ → Ending) (u : Traffic τ) : Prop where
  steps : Relation.ReflTransGen Step t u
  entered : u.entered = t.entered
  counted : u.counted = t.counted
  sent : u.sent = t.sent
  finished : ∃ tasks : List (Call τ), u.finished = t.finished ++ tasks.map fun c => (c, ends c)

theorem Works.refl (ends : Call τ → Ending) (t : Traffic τ) : t.Works ends t :=
  ⟨.refl, rfl, rfl, rfl, [], (List.append_nil _).symm⟩

theorem Works.trans {ends : Call τ → Ending} {u v : Traffic τ} (h : t.Works ends u)
    (h' : u.Works ends v) : t.Works ends v := by
  obtain ⟨tasks, hfinished⟩ := h.finished
  obtain ⟨tasks', hfinished'⟩ := h'.finished
  refine ⟨h.steps.trans h'.steps, h'.entered.trans h.entered, h'.counted.trans h.counted,
    h'.sent.trans h.sent, tasks ++ tasks', ?_⟩
  rw [hfinished', hfinished, List.map_append, List.append_assoc]

theorem works_fireAll (ends : Call τ → Ending) {tasks : List (Call τ)} (hr : t.running = none)
    (hw : t.service.worker = .firing tasks) : t.Works ends (t.fireAll ends tasks) :=
  ⟨steps_fireAll ends hr hw, rfl, rfl, rfl, tasks, rfl⟩

/-- After a look at the clock the worker fires what is due. -/
theorem works_wake (ends : Call τ → Ending) (now : UInt64) (hr : t.running = none)
    (h : t.service.Awake) :
    t.Works ends ((t.wake now).fireAll ends (t.service.wake now).due) :=
  Works.trans ⟨.single (.wake now hr h), rfl, rfl, rfl, [], (List.append_nil _).symm⟩
    (works_fireAll ends hr rfl)

/-- The worker gets to the end of its round. -/
theorem Orderly.exists_idle (ho : t.Orderly limit) (ends : Call τ → Ending) :
    ∃ u, t.Works ends u ∧ u.running = none ∧ u.service.worker = .firing [] := by
  obtain ⟨u, hu, hr, hworker⟩ : ∃ u, t.Works ends u ∧ u.running = none ∧
      u.service.worker = t.service.worker := by
    cases hr : t.running with
    | none => exact ⟨t, .refl ends t, hr, rfl⟩
    | some c => exact ⟨_, ⟨.single (.finish (ends c) hr), rfl, rfl, rfl, [c], rfl⟩, rfl, rfl⟩
  cases hw : t.service.worker with
  | waking => exact ⟨_, hu.trans (works_wake ends 0 hr (Or.inl (hworker.trans hw))), rfl, rfl⟩
  | firing due => exact ⟨_, hu.trans (works_fireAll ends hr (hworker.trans hw)), rfl, rfl⟩
  | exited => exact absurd hw ho.alive

/-- The worker receives all messages. -/
theorem Orderly.exists_received (ho : t.Orderly limit) (ends : Call τ → Ending)
    (hr : t.running = none)
    (hw : t.service.worker = .firing []) :
    ∃ u, t.Works ends u ∧ u.running = none ∧ u.service.worker = .firing [] ∧
      u.service.channel = [] := by
  induction hchannel : t.service.channel generalizing t with
  | nil => exact ⟨t, .refl ends t, hr, hw, hchannel⟩
  | cons m rest ih =>
    obtain ⟨c, deadline, rfl, -⟩ := ho.channel m (hchannel ▸ List.mem_cons_self)
    let s : TimeoutService (Call τ) :=
      { t.service with
        channel := rest, queue := t.service.queue.push c deadline, worker := .waking }
    have hreceive : t.service.receive? = some s := by
      rw [receive?, hw, hchannel]
    have hfirst : t.Works ends { t with service := s } :=
      ⟨.single (.receive hr hreceive), rfl, rfl, rfl, [], (List.append_nil _).symm⟩
    have hround := hfirst.trans (works_wake ends 0 hr (Or.inl rfl))
    obtain ⟨u, hu, hrest⟩ := ih (ho.steps hround.steps) rfl rfl rfl
    exact ⟨u, hround.trans hu, hrest⟩

/-- Once no message is left, a late enough look at the clock finds all tasks of the queue to be
due. -/
theorem exists_emptied (ends : Call τ → Ending) (hr : t.running = none)
    (hw : t.service.worker = .firing [])
    (hchannel : t.service.channel = []) :
    ∃ u, t.Works ends u ∧ u.running = none ∧ u.service.due = [] ∧ u.service.held = [] ∧
      u.service.waiting = [] := by
  have hwaiting : t.service.waiting = [] := by rw [waiting, hchannel, List.filterMap_nil]
  cases hentries : t.service.queue.entries with
  | nil =>
    have hdue : t.service.due = [] := by rw [due, hw]
    have hheld : t.service.held = [] := by rw [held, hentries, List.map_nil]
    exact ⟨t, .refl ends t, hr, hdue, hheld, hwaiting⟩
  | cons e rest =>
    have hnext : t.service.queue.nextDeadline.isSome := by
      rw [DeadlineQueue.nextDeadline, hentries]
      rfl
    have hheld : (t.service.wake maxWord).held = [] :=
      congrArg (List.map Timed.task) t.service.queue.entries_expire_maxWord
    exact ⟨_, works_wake ends maxWord hr (Or.inr ⟨hw, hnext⟩), rfl, rfl, hheld, hwaiting⟩

/-- **Whichever tasks panic, the worker can fire all that were sent to the end.** -/
theorem Orderly.exists_all_fired (ho : t.Orderly limit) (ends : Call τ → Ending) :
    ∃ u, t.Works ends u ∧ ∀ c ∈ t.sent, c ∈ u.finished.map (·.1) := by
  obtain ⟨idle, hidle, hr, hw⟩ := ho.exists_idle ends
  obtain ⟨last, hlast, hr, hw, hchannel⟩ := (ho.steps hidle.steps).exists_received ends hr hw
  obtain ⟨u, hu, hr, hdue, hheld, hwaiting⟩ := exists_emptied ends hr hw hchannel
  have hworks := (hidle.trans hlast).trans hu
  refine ⟨u, hworks, fun c hc => ?_⟩
  -- No place is left where a task could be.
  obtain ⟨received, hsent, hreceived⟩ := (ho.steps hworks.steps).received
  rw [hwaiting, List.append_nil] at hsent
  rw [hr, hdue, hheld] at hreceived
  rw [← hworks.sent, hsent] at hc
  simpa using hreceived.mem_iff.mp hc

end Firing

end Traffic

/-- **Tasks are fired at most once, when they are due and in order, whichever of them panics, and
the counter tells how many are pending.** -/
theorem timeouts_fire_once {config : TimeoutConfig} {s : TimeoutService (Call τ)}
    (hs : make config = .ok s)
    {t : Traffic τ} (h : Relation.ReflTransGen Step { service := s } t) :
    t.rounds.flatMap (·.fired) = t.finished.map (·.1) ++ t.running.toList ∧
      ((t.rounds.flatMap (·.fired)).map (·.number)).Nodup ∧
      (∀ r ∈ t.rounds, r.fired.Pairwise (Call.Before config.maxTimeout t.sent) ∧
        ∀ c ∈ r.fired, c ∈ t.sent ∧ c.dueTime config.maxTimeout ≤ r.reading.toNat) ∧
      (∀ r ∈ t.past, r.fired = r.batch) ∧
      (∀ r ∈ t.current, r.batch = r.fired ++ t.service.due ∧ (t.service.worker ≠ .waking →
        ∀ c ∈ t.service.held, r.reading.toNat < c.dueTime config.maxTimeout)) ∧
      (∀ ends, ∃ u, t.Works ends u ∧ ∀ c ∈ t.sent, c ∈ u.finished.map (·.1)) ∧
      t.service.pending = t.unfinished.length := by
  have ho := (Traffic.orderly_start hs).steps h
  refine ⟨ho.fired, ho.fired_nodup, fun r hr => ?_, ho.past,
    fun r hr => ⟨ho.current r hr, ho.later r hr⟩, ho.exists_all_fired, ho.pending_eq⟩
  have hfired := ho.fired_sublist hr
  obtain ⟨hordered, hdue⟩ := ho.batch r hr
  exact ⟨hordered.sublist hfired, fun c hc =>
    ⟨ho.mem_sent_of_fired (List.mem_flatMap.mpr ⟨r, hr, hc⟩), hdue c (hfired.subset hc)⟩⟩

/-- Two tasks are due at one time, and the one that was sent first panics after it has scheduled
another. While the second is being fired, it and the new one are pending, and both can be fired to
the end. -/
theorem timeouts_fire_once_nested :
    ∃ (s : TimeoutService (Call String)) (t u : Traffic String),
      make { maxTimeoutMillis := 1 } = .ok s ∧ Relation.ReflTransGen Step { service := s } t ∧
        t.rounds.map (fun r => (r.reading, r.fired.map (·.task))) =
          [(0, []), (0, []), (20, ["second", "first"])] ∧
        t.finished.map (fun f => (f.1.task, f.2)) = [("second", .panicked)] ∧
        t.service.pending = 2 ∧ t.unfinished.map (·.task) = ["first", "third"] ∧
        ((t.rounds.flatMap (·.fired)).map (·.number)).Nodup ∧
        t.Works (fun _ => .panicked) u ∧ ∀ c ∈ t.sent, c ∈ u.finished.map (·.1) := by
  let s : TimeoutService (Call String) := { name := "precipice-timeout", maxTimeout := 1000000 }
  let first : Call String := ⟨0, "first", ⟨5⟩, 10⟩
  let second : Call String := ⟨1, "second", ⟨10⟩, 5⟩
  let third : Call String := ⟨2, "third", ⟨2 ^ 70⟩, maxWord⟩
  let one : TimeoutService (Call String) :=
    { s with pending := 2, channel := [.schedule first 15], queue := ⟨[⟨15, second⟩]⟩ }
  let both : TimeoutService (Call String) :=
    { s with pending := 2, queue := ⟨[⟨15, second⟩, ⟨15, first⟩]⟩ }
  let last : TimeoutService (Call String) :=
    { s with pending := 2, channel := [.schedule third maxWord], worker := .firing [] }
  have hs : make { maxTimeoutMillis := 1 } = .ok s := by decide +kernel
  have hrun : Relation.ReflTransGen Step { service := s } _ :=
    .head (.enter "first" ⟨5⟩ 10 rfl) <| .head (.enter "second" ⟨10⟩ 5 rfl) <|
    .head (.count [] rfl) <| .head (.count [] rfl) <|
    .head (.send [_] rfl rfl) <| .head (.send [] rfl rfl) <|
    .head (.wake 0 rfl (Or.inl rfl)) <| .head (.receive (s := one) rfl (by decide +kernel)) <|
    .head (.wake 0 rfl (Or.inl rfl)) <| .head (.receive (s := both) rfl (by decide +kernel)) <|
    .head (.wake 20 rfl (Or.inl rfl)) <|
    .head (.fire (c := second) (s := { s with pending := 2, worker := .firing [first] }) rfl
      (by decide +kernel)) <|
    .head (.enter "third" ⟨2 ^ 70⟩ maxWord rfl) <| .head (.count [] rfl) <|
      .head (.send [] rfl rfl) <|
    .head (.finish .panicked rfl) <|
    .head (.fire (c := first) (s := last) rfl (by decide +kernel)) .refl
  obtain ⟨-, hnodup, -, -, -, hall, -⟩ := timeouts_fire_once hs hrun
  obtain ⟨u, hworks, hu⟩ := hall fun _ => .panicked
  exact ⟨s, _, u, hs, hrun,
    by decide +kernel, by decide +kernel, rfl, by decide +kernel, hnodup, hworks, hu⟩

end TimeoutService

end Admission
