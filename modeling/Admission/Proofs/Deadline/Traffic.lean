import Admission.Deadline.Service
import Admission.Proofs.Deadline.Queue
import Admission.Proofs.Word
import Mathlib.Data.List.Perm.Basic
import Mathlib.Logic.Relation

/-!
# Callers and the worker of a timeout service

Any number of callers schedule tasks with a timeout service while its worker goes round and fires
those that are due. Their steps fall between each other in any order. A task that has been counted
is in one place at a time: with its caller, in the channel, in the queue, among those that the
worker is about to fire, or it is being fired, until it has been fired. So the counter of pending
tasks tells how many have not been fired to the end.

## Main definitions

* `Call`, `Call.dueTime`: a call that schedules a task, and when this is due
* `Round`: what the worker does after one look at its clock
* `Traffic`, `Step`: a service with its callers, and the steps of all of them
* `Traffic.Orderly`: what holds at all times

## Main results

* `Orderly.step`, `Orderly.steps`: what holds is kept by each step, and by any steps
-/

namespace Admission

/-- The task that a message brings. -/
def Message.task? {τ : Type} : Message τ → Option τ
  | .schedule task _ => some task
  | .stop => none

namespace TimeoutService

variable {τ : Type}

/-! ## Where tasks are -/

section Places

variable {s u : TimeoutService τ} {task : τ}

/-- The tasks in the channel. -/
def waiting (s : TimeoutService τ) : List τ := s.channel.filterMap Message.task?

/-- The tasks in the queue. -/
def held (s : TimeoutService τ) : List τ := s.queue.entries.map (·.task)

/-- The tasks that were due at the last look at the clock and have still to be fired. -/
def due (s : TimeoutService τ) : List τ :=
  match s.worker with
  | .firing due => due
  | _ => []

/-- A worker that looks at its clock next: it has just received a message, or it waits for one until
the next deadline. -/
def Awake (s : TimeoutService τ) : Prop :=
  s.worker = .waking ∨ s.worker = .firing [] ∧ s.queue.nextDeadline.isSome

theorem Awake.due_eq (h : s.Awake) : s.due = [] := by
  unfold due
  rcases h with h | ⟨h, -⟩
  · rw [h]
  · rw [h]

/-- A service starts with nothing in it. -/
theorem eq_of_make {config : TimeoutConfig} (h : make config = .ok s) :
    s = { name := config.name, maxTimeout := config.maxTimeout.toWord } := by
  unfold make at h
  cases hv : config.validate with
  | error e =>
    rw [hv] at h
    cases h
  | ok valid =>
    rw [hv] at h
    cases h
    rfl

theorem waiting_send (s : TimeoutService τ) (task : τ) (deadline : UInt64) :
    waiting { s with channel := s.channel ++ [.schedule task deadline] } = s.waiting ++ [task] :=
  List.filterMap_append

theorem held_wake (s : TimeoutService τ) (now : UInt64) :
    s.held = (s.wake now).due ++ (s.wake now).held :=
  s.queue.entries_expire now

theorem eq_of_send {m : Message τ} (h : s.send m = some u) :
    u = { s with channel := s.channel ++ [m] } := by
  unfold send at h
  split at h
  · cases h
  · exact (Option.some.inj h).symm

theorem send_of_alive (m : Message τ) (h : s.worker ≠ .exited) :
    s.send m = some { s with channel := s.channel ++ [m] } := by
  have hexited : s.isExited = false := by
    unfold isExited
    cases hw : s.worker with
    | exited => exact absurd hw h
    | waking | firing due => rfl
  rw [send, hexited]
  rfl

theorem worker_of_fireNext? (h : s.fireNext? = some (task, u)) :
    ∃ rest, s.worker = .firing (task :: rest) ∧ u = { s with worker := .firing rest } := by
  unfold fireNext? at h
  split at h
  · rename_i first rest hw
    cases h
    exact ⟨rest, hw, rfl⟩
  · cases h

theorem exists_of_receive? (h : s.receive? = some u) :
    s.worker = .firing [] ∧ ∃ m rest, s.channel = m :: rest ∧ ∀ task deadline,
      m = .schedule task deadline →
        u = { s with channel := rest, queue := s.queue.push task deadline, worker := .waking } := by
  unfold receive? at h
  split at h
  · rename_i task deadline rest hw hc
    cases h
    refine ⟨hw, _, rest, hc, fun task' deadline' heq => ?_⟩
    cases heq
    rfl
  · rename_i rest hw hc
    exact ⟨hw, _, rest, hc, fun task deadline heq => nomatch heq⟩
  · cases h

end Places

/-! ## Callers and a worker -/

/-- A call that schedules a task. -/
structure Call (τ : Type) where
  /-- How many calls were made before. -/
  number : Nat
  task : τ
  timeout : Duration
  now : UInt64
deriving DecidableEq, Repr

/-- When the task of a call is due if no timeout is longer than `limit`. -/
def Call.dueTime (limit : Duration) (c : Call τ) : Nat :=
  min (c.now.toNat + min c.timeout.nanos limit.nanos) (2 ^ 64 - 1)

/-- The order in which tasks are fired: by the time when they are due, and those that are due at one
time as they were sent. -/
def Call.Before (limit : Duration) (sent : List (Call τ)) (c d : Call τ) : Prop :=
  c.dueTime limit < d.dueTime limit ∨ c.dueTime limit = d.dueTime limit ∧ [c, d].Sublist sent

/-- How the firing of a task ends. -/
inductive Ending where
  | returned
  | panicked
deriving DecidableEq, Repr

/-- What the worker does after one look at its clock. -/
structure Round (τ : Type) where
  reading : UInt64
  /-- The tasks that were due. -/
  batch : List (Call τ)
  /-- Those that have been fired so far, in this order. The last may be being fired. -/
  fired : List (Call τ) := []
deriving DecidableEq, Repr

/-- A timeout service with its callers. Its tasks are the calls that schedule them. -/
structure Traffic (τ : Type) where
  service : TimeoutService (Call τ)
  /-- How many calls have been made. -/
  made : Nat := 0
  /-- The calls that have found the service to accept tasks, and have not counted theirs. -/
  entered : List (Call τ) := []
  /-- The calls that have counted their tasks, and have not sent them. -/
  counted : List (Call τ) := []
  /-- The calls that have sent their tasks, in this order. -/
  sent : List (Call τ) := []
  /-- The rounds that are over, the earliest first. -/
  past : List (Round τ) := []
  current : Option (Round τ) := none
  /-- The task that is being fired. -/
  running : Option (Call τ) := none
  /-- The tasks that have been fired to the end, and how that was. -/
  finished : List (Call τ × Ending) := []

namespace Traffic

/-- All rounds, the earliest first. -/
def rounds (t : Traffic τ) : List (Round τ) := t.past ++ t.current.toList

/-- The traffic after a call has been made. -/
def enter (t : Traffic τ) (task : τ) (timeout : Duration) (now : UInt64) : Traffic τ :=
  { t with made := t.made + 1, entered := ⟨t.made, task, timeout, now⟩ :: t.entered }

/-- What a call sends. -/
def message (t : Traffic τ) (c : Call τ) : Message (Call τ) :=
  .schedule c (t.service.deadlineOf c.timeout c.now)

/-- The traffic after the worker has looked at its clock. -/
def wake (t : Traffic τ) (now : UInt64) : Traffic τ :=
  { t with
    service := t.service.wake now
    past := t.past ++ t.current.toList
    current := some { reading := now, batch := (t.service.wake now).due } }

/-- The traffic after the worker has begun to fire a task. -/
def fire (t : Traffic τ) (c : Call τ) (s : TimeoutService (Call τ)) : Traffic τ :=
  { t with
    service := s
    current := t.current.map fun r => { r with fired := r.fired ++ [c] }
    running := some c }

/-- The traffic after a task has been fired to the end, which is when its count is taken back. -/
def finish (t : Traffic τ) (c : Call τ) (ending : Ending) : Traffic τ :=
  { t with
    service := t.service.finishFire
    running := none
    finished := t.finished ++ [(c, ending)] }

end Traffic

/-- A step of a caller or of the worker. Nobody stops the service. The callers are other threads, or
the task that is being fired. -/
inductive Step : Traffic τ → Traffic τ → Prop where
  | enter {t : Traffic τ} (task : τ) (timeout : Duration) (now : UInt64)
      (h : t.service.accepting = true) : Step t (t.enter task timeout now)
  | count {t : Traffic τ} (before : List (Call τ)) {after : List (Call τ)} {c : Call τ}
      (h : t.entered = before ++ c :: after) : Step t
      { t with
        service := t.service.announce
        entered := before ++ after
        counted := c :: t.counted }
  | send {t : Traffic τ} (before : List (Call τ)) {after : List (Call τ)} {c : Call τ}
      {s : TimeoutService (Call τ)}
      (h : t.counted = before ++ c :: after) (hs : t.service.send (t.message c) = some s) : Step t
      { t with
        service := s
        counted := before ++ after
        sent := t.sent ++ [c] }
  | wake {t : Traffic τ} (now : UInt64) (hr : t.running = none) (h : t.service.Awake) :
      Step t (t.wake now)
  | fire {t : Traffic τ} {c : Call τ} {s : TimeoutService (Call τ)} (hr : t.running = none)
      (h : t.service.fireNext? = some (c, s)) : Step t (t.fire c s)
  | finish {t : Traffic τ} {c : Call τ} (ending : Ending) (hr : t.running = some c) :
      Step t (t.finish c ending)
  | receive {t : Traffic τ} {s : TimeoutService (Call τ)} (hr : t.running = none)
      (h : t.service.receive? = some s) : Step t { t with service := s }

/-! ## What holds at all times -/

section Order

variable {limit : Duration} {sent : List (Call τ)} {c d : Call τ}

/-- The deadline of a task is the sum, or the largest word if the sum does not fit. -/
theorem deadlineOf_toNat {s : TimeoutService (Call τ)} (h : s.maxTimeout = limit.toWord)
    (c : Call τ) :
    (s.deadlineOf c.timeout c.now).toNat = c.dueTime limit := by
  have hm : maxWord.toNat = 2 ^ 64 - 1 := rfl
  have hc := Duration.toWord_toNat c.timeout
  have hl := Duration.toWord_toNat limit
  rw [deadlineOf, h, addSat_toNat, hm, Call.dueTime]
  split
  · rename_i hlt
    have hlt := UInt64.lt_iff_toNat_lt.mp hlt
    omega
  · rename_i hle
    have hle := UInt64.le_iff_toNat_le.mp (UInt64.not_lt.mp hle)
    omega

/-- What was sent first stays first. -/
theorem Call.Before.mono {more : List (Call τ)} (h : c.Before limit sent d) :
    c.Before limit (sent ++ more) d :=
  h.imp_right fun ⟨heq, hsub⟩ => ⟨heq, hsub.trans (List.sublist_append_left sent more)⟩

theorem Call.Before.dueTime_le (h : c.Before limit sent d) : c.dueTime limit ≤ d.dueTime limit := by
  rcases h with h | ⟨h, -⟩
  · exact Nat.le_of_lt h
  · exact Nat.le_of_eq h

end Order

/-- An element is moved to the front of what comes behind. -/
theorem perm_move {α : Type} (before after : List α) (a : α) (rest : List α) :
    (before ++ after ++ a :: rest).Perm (before ++ a :: after ++ rest) := by
  rw [List.append_assoc, List.append_assoc]
  exact List.perm_middle.append_left before

namespace Traffic

/-- What holds at all times: the service goes on, every task is in one place, the tasks in the
channel and in the queue have their deadlines, and the queue and the batches are in order. -/
structure Orderly (limit : Duration) (t : Traffic τ) : Prop where
  accepting : t.service.accepting = true
  alive : t.service.worker ≠ .exited
  maxTimeout : t.service.maxTimeout = limit.toWord
  numbers : ((t.entered ++ (t.counted ++ t.sent)).map (·.number)).Perm (List.range t.made)
  pending : t.service.pending + t.finished.length = t.counted.length + t.sent.length
  channel : ∀ m ∈ t.service.channel, ∃ c deadline, m = .schedule c deadline ∧
    deadline.toNat = c.dueTime limit
  entries : ∀ e ∈ t.service.queue.entries, e.deadline.toNat = e.task.dueTime limit
  /-- What was sent is in the channel, or it was received and is in one of the other places. -/
  received : ∃ received, t.sent = received ++ t.service.waiting ∧
    received.Perm (t.finished.map (·.1) ++ (t.running.toList ++ (t.service.due ++ t.service.held)))
  sorted : t.service.queue.entries.Pairwise fun e f => e.task.Before limit t.sent f.task
  batch : ∀ r ∈ t.rounds, r.batch.Pairwise (Call.Before limit t.sent) ∧
    ∀ c ∈ r.batch, c.dueTime limit ≤ r.reading.toNat
  past : ∀ r ∈ t.past, r.fired = r.batch
  current : ∀ r ∈ t.current, r.batch = r.fired ++ t.service.due
  resting : t.current = none → t.service.due = []
  /-- While the worker fires, no task is left in the queue that was due. -/
  later : ∀ r ∈ t.current, t.service.worker ≠ .waking → ∀ c ∈ t.service.held,
    r.reading.toNat < c.dueTime limit
  fired : t.rounds.flatMap (·.fired) = t.finished.map (·.1) ++ t.running.toList

section Steps

variable {limit : Duration} {t u : Traffic τ} {c : Call τ} {before after : List (Call τ)}

/-- A caller that enters makes a call with a new number. -/
theorem Orderly.enter (ho : t.Orderly limit) (task : τ) (timeout : Duration) (now : UInt64) :
    (t.enter task timeout now).Orderly limit where
  __ := ho
  numbers := by
    rw [Traffic.enter, List.range_succ]
    exact (ho.numbers.cons t.made).trans (List.perm_append_singleton t.made _).symm

/-- A task that is counted is pending, and stays with its caller. -/
theorem Orderly.count (ho : t.Orderly limit) (h : t.entered = before ++ c :: after) :
    Orderly limit { t with
      service := t.service.announce, entered := before ++ after, counted := c :: t.counted } where
  __ := ho
  numbers := by
    have hnumbers := ho.numbers
    rw [h] at hnumbers
    exact ((perm_move before after c _).map _).trans hnumbers
  pending := by
    have hpending := ho.pending
    show t.service.pending + 1 + t.finished.length = t.counted.length + 1 + t.sent.length
    omega

/-- A task that is sent is the last one in the channel. -/
theorem Orderly.send (ho : t.Orderly limit) {s : TimeoutService (Call τ)}
    (h : t.counted = before ++ c :: after) (hs : t.service.send (t.message c) = some s) :
    Orderly limit { t with service := s, counted := before ++ after, sent := t.sent ++ [c] } := by
  obtain rfl := eq_of_send hs
  exact {
    __ := ho
    numbers := by
      have hnumbers := ho.numbers
      rw [h] at hnumbers
      have hsent : (before ++ after ++ (t.sent ++ [c])).Perm (before ++ after ++ c :: t.sent) :=
        (List.perm_append_singleton c t.sent).append_left _
      exact (((hsent.trans (perm_move before after c _)).append_left t.entered).map
        _).trans hnumbers
    pending := by
      have hpending := ho.pending
      have hlength := congrArg List.length h
      simp only [List.length_append, List.length_cons, List.length_nil] at hlength ⊢
      omega
    channel := by
      intro m hm
      rcases List.mem_append.mp hm with hm | hm
      · exact ho.channel m hm
      · exact ⟨c, _, List.mem_singleton.mp hm, deadlineOf_toNat ho.maxTimeout c⟩
    received := by
      obtain ⟨received, hsent, hreceived⟩ := ho.received
      refine ⟨received, ?_, hreceived⟩
      show t.sent ++ [c] = received ++ _
      rw [Traffic.message, waiting_send, hsent, List.append_assoc]
    sorted := ho.sorted.imp Call.Before.mono
    batch := fun r hr => ((ho.batch r hr).imp_left fun hbatch => hbatch.imp Call.Before.mono) }

/-- The queue is in the order of the deadlines. -/
theorem Orderly.deadlines (ho : t.Orderly limit) :
    t.service.queue.entries.Pairwise (·.deadline ≤ ·.deadline) := by
  refine ho.sorted.imp_of_mem fun he hf hbefore => UInt64.le_iff_toNat_le.mpr ?_
  rw [ho.entries _ he, ho.entries _ hf]
  exact hbefore.dueTime_le

/-- The tasks that are due are taken out in order. -/
theorem Orderly.wake (ho : t.Orderly limit) (now : UInt64) (h : t.service.Awake) :
    (t.wake now).Orderly limit where
  __ := ho
  alive := fun heq => nomatch heq
  entries := fun e he => ho.entries e ((t.service.queue.sublist_expire now).subset he)
  received := by
    obtain ⟨received, hsent, hreceived⟩ := ho.received
    refine ⟨received, hsent, ?_⟩
    rw [h.due_eq, List.nil_append, t.service.held_wake now] at hreceived
    exact hreceived
  sorted := ho.sorted.sublist (t.service.queue.sublist_expire now)
  batch := by
    intro r hr
    rcases List.mem_append.mp hr with hr | hr
    · exact ho.batch r hr
    · obtain rfl := List.mem_singleton.mp hr
      have hheld : t.service.held.Pairwise (Call.Before limit t.sent) :=
        List.pairwise_map.mpr ho.sorted
      rw [t.service.held_wake now] at hheld
      refine ⟨(List.pairwise_append.mp hheld).1, fun c hc => ?_⟩
      obtain ⟨e, he, rfl, hdue⟩ := DeadlineQueue.mem_expire hc
      rw [← ho.entries e he]
      exact UInt64.le_iff_toNat_le.mp hdue
  past := by
    intro r hr
    rcases List.mem_append.mp hr with hr | hr
    · exact ho.past r hr
    · have hbatch := ho.current r (Option.mem_toList.mp hr)
      rw [h.due_eq, List.append_nil] at hbatch
      exact hbatch.symm
  current := by
    rintro r ⟨⟩
    rfl
  resting := fun hnone => nomatch hnone
  later := by
    rintro r ⟨⟩ - c hc
    obtain ⟨e, he, rfl⟩ := List.mem_map.mp hc
    rw [← ho.entries e ((t.service.queue.sublist_expire now).subset he)]
    exact UInt64.lt_iff_toNat_lt.mp (DeadlineQueue.lt_of_mem_expire ho.deadlines he)
  fired := by
    refine Eq.trans ?_ ho.fired
    show List.flatMap _ (t.past ++ t.current.toList ++ [_]) = _
    rw [List.flatMap_append]
    exact List.append_nil _

/-- The first of the tasks that are due is fired next. -/
theorem Orderly.fire (ho : t.Orderly limit) {s : TimeoutService (Call τ)} (hr : t.running = none)
    (h : t.service.fireNext? = some (c, s)) : (t.fire c s).Orderly limit := by
  obtain ⟨rest, hworker, rfl⟩ := worker_of_fireNext? h
  have hdue : t.service.due = c :: rest := by rw [due, hworker]
  obtain ⟨r, hcurrent⟩ : ∃ r, t.current = some r := by
    refine Option.ne_none_iff_exists'.mp fun hnone => ?_
    rw [ho.resting hnone] at hdue
    cases hdue
  have hnext : (t.fire c { t.service with worker := .firing rest }).current =
      some { r with fired := r.fired ++ [c] } := by
    rw [Traffic.fire, hcurrent]
    rfl
  exact {
    __ := ho
    alive := fun heq => nomatch heq
    received := by
      obtain ⟨received, hsent, hreceived⟩ := ho.received
      refine ⟨received, hsent, ?_⟩
      rw [hr, hdue] at hreceived
      exact hreceived
    batch := by
      intro r' hr'
      rw [Traffic.rounds, hnext] at hr'
      rcases List.mem_append.mp hr' with hr' | hr'
      · exact ho.batch r' (List.mem_append_left _ hr')
      · obtain rfl := List.mem_singleton.mp hr'
        exact ho.batch r (List.mem_append_right _ (Option.mem_toList.mpr hcurrent))
    current := by
      rw [hnext]
      rintro r' ⟨⟩
      have hbatch := ho.current r hcurrent
      rw [hdue] at hbatch
      exact hbatch.trans (List.append_cons r.fired c rest)
    resting := by
      rw [hnext]
      exact fun hnone => nomatch hnone
    later := by
      rw [hnext]
      rintro r' ⟨⟩ - d hd
      exact ho.later r hcurrent (by rw [hworker]; exact fun heq => nomatch heq) d hd
    fired := by
      have hfired := ho.fired
      rw [Traffic.rounds, List.flatMap_append, hcurrent, hr] at hfired
      simp only [Option.toList_some, Option.toList_none, List.flatMap_singleton,
        List.append_nil] at hfired
      rw [Traffic.rounds, hnext, List.flatMap_append]
      show t.past.flatMap (·.fired) ++ (r.fired ++ [c] ++ []) = t.finished.map (·.1) ++ [c]
      rw [List.append_nil, ← List.append_assoc, hfired] }

/-- A task that has been fired to the end is pending no more, and it does not matter how that
was. -/
theorem Orderly.finish (ho : t.Orderly limit) (ending : Ending) (hr : t.running = some c) :
    (t.finish c ending).Orderly limit := by
  obtain ⟨received, hsent, hreceived⟩ := ho.received
  have hfinished : (t.finished ++ [(c, ending)]).map (·.1) = t.finished.map (·.1) ++ [c] := by
    rw [List.map_append]
    rfl
  rw [hr] at hreceived
  exact {
    __ := ho
    pending := by
      have hpending := ho.pending
      have hlength := congrArg List.length hsent
      have hplaces := hreceived.length_eq
      simp only [List.length_append, List.length_map, Option.toList_some, List.length_singleton]
        at hlength hplaces
      show t.service.pending - 1 + (t.finished ++ [(c, ending)]).length =
        t.counted.length + t.sent.length
      rw [List.length_append, List.length_singleton]
      omega
    received := by
      refine ⟨received, hsent, ?_⟩
      show received.Perm ((t.finished ++ [(c, ending)]).map (·.1) ++ _)
      rw [hfinished, List.append_assoc]
      exact hreceived
    fired := by
      show t.rounds.flatMap (·.fired) = (t.finished ++ [(c, ending)]).map (·.1) ++ []
      rw [hfinished, List.append_nil, ho.fired, hr]
      rfl }

/-- The oldest message is received. Its task was sent after all that were received before. -/
theorem Orderly.receive (ho : t.Orderly limit) {s : TimeoutService (Call τ)}
    (h : t.service.receive? = some s) : Orderly limit { t with service := s } := by
  obtain ⟨hworker, m, rest, hchannel, hs⟩ := exists_of_receive? h
  obtain ⟨c, deadline, rfl, hdeadline⟩ := ho.channel m (hchannel ▸ List.mem_cons_self)
  obtain rfl := hs c deadline rfl
  obtain ⟨received, hsent, hreceived⟩ := ho.received
  have hdue : t.service.due = [] := by rw [due, hworker]
  have hwaiting : t.service.waiting = c :: rest.filterMap Message.task? := by
    rw [waiting, hchannel]
    rfl
  have hinsert := DeadlineQueue.insert_perm ⟨deadline, c⟩ t.service.queue.entries
  have hbehind : ∀ e ∈ t.service.queue.entries, [e.task, c].Sublist t.sent := by
    intro e he
    have hheld : e.task ∈ t.service.held := List.mem_map_of_mem he
    have hmem : e.task ∈ received := hreceived.mem_iff.mpr (by simp [hheld])
    rw [hsent, hwaiting]
    exact (List.singleton_sublist.mpr hmem).append (List.singleton_sublist.mpr List.mem_cons_self)
  exact {
    __ := ho
    alive := fun heq => nomatch heq
    channel := fun m hm => ho.channel m (hchannel ▸ List.mem_cons_of_mem _ hm)
    entries := by
      intro e he
      rcases List.mem_cons.mp (hinsert.mem_iff.mp he) with rfl | he
      · exact hdeadline
      · exact ho.entries e he
    received := by
      refine ⟨received ++ [c], ?_, ?_⟩
      · show t.sent = received ++ [c] ++ rest.filterMap Message.task?
        rw [hsent, hwaiting, List.append_cons]
      · rw [hdue] at hreceived
        have hplaced := (hreceived.cons c).trans (List.perm_middle.symm.trans
          (List.perm_middle.symm.append_left _))
        have hheld := (hinsert.map (·.task)).symm.append_left t.running.toList
        exact (List.perm_append_singleton c received).trans (hplaced.trans (hheld.append_left _))
    sorted := by
      refine DeadlineQueue.pairwise_insert ho.deadlines ho.sorted (fun f hf hlt => Or.inl ?_)
        fun f hf hle => ?_
      · rw [← hdeadline, ← ho.entries f hf]
        exact UInt64.lt_iff_toNat_lt.mp hlt
      · have hle : f.task.dueTime limit ≤ c.dueTime limit := by
          rw [← hdeadline, ← ho.entries f hf]
          exact UInt64.le_iff_toNat_le.mp hle
        exact (Nat.lt_or_eq_of_le hle).imp_right fun heq => ⟨heq, hbehind f hf⟩
    current := by
      intro r hr
      have hbatch := ho.current r hr
      rw [hdue] at hbatch
      exact hbatch
    resting := fun _ => rfl
    later := fun r hr hne => absurd rfl hne }

/-- Before anybody has done anything, all is in order. -/
theorem orderly_start {s : TimeoutService (Call τ)} {config : TimeoutConfig}
    (h : make config = .ok s) :
    Orderly config.maxTimeout { service := s } := by
  obtain rfl := eq_of_make h
  exact {
    accepting := rfl
    alive := fun heq => nomatch heq
    maxTimeout := rfl
    numbers := .nil
    pending := rfl
    channel := fun _ h => nomatch h
    entries := fun _ h => nomatch h
    received := ⟨[], rfl, .nil⟩
    sorted := .nil
    batch := fun _ h => nomatch h
    past := fun _ h => nomatch h
    current := fun _ h => nomatch h
    resting := fun _ => rfl
    later := fun _ h => nomatch h
    fired := rfl }

/-- **What holds is kept by each step.** -/
theorem Orderly.step (ho : t.Orderly limit) (h : Step t u) : u.Orderly limit := by
  cases h with
  | enter task timeout now h => exact ho.enter task timeout now
  | count before h => exact ho.count h
  | send before h hs => exact ho.send h hs
  | wake now hr h => exact ho.wake now h
  | fire hr h => exact ho.fire hr h
  | finish ending hr => exact ho.finish ending hr
  | receive hr h => exact ho.receive h

theorem Orderly.steps (ho : t.Orderly limit) (h : Relation.ReflTransGen Step t u) :
    u.Orderly limit := by
  induction h with
  | refl => exact ho
  | tail hsteps hstep ih => exact ih.step hstep

end Steps

end Traffic

end TimeoutService

end Admission
