import Admission.Scenario.World

/-!
# The weight of a world and its parts

The weight of a promise, a queue or a service bounds the steps that its callbacks can still take.
Each operation on them changes the weight by an amount that is stated here: a completion takes the
return of the permits off a promise, an expiry takes the tasks that are due off a queue, and a
registration adds what it registers.

## Main results

* `World.weight_settlePromise`, `World.weight_settleCompletable`: what a completion takes off
* `promiseWeight_takeCallbacks`, `promiseWeight_takeWakers`: what is taken to be run
* `serviceWeight_wake`, `serviceWeight_fireNext`, `serviceWeight_receive`: the steps of a worker
-/

namespace Admission.Scenario

/-! ## Sums over lists and arrays -/

section Sums

variable {α : Type}

theorem sum_map_set (f : α → Nat) {x : α} (y : α) :
    ∀ (l : List α) (i : Nat), l[i]? = some x → ((l.set i y).map f).sum + f x = (l.map f).sum + f y
  | [], i, h => by simp at h
  | a :: l, 0, h => by
    simp only [List.getElem?_cons_zero, Option.some.injEq] at h
    subst h
    simp only [List.set_cons_zero, List.map_cons, List.sum_cons]
    omega
  | a :: l, i + 1, h => by
    simp only [List.getElem?_cons_succ] at h
    have := sum_map_set f y l i h
    simp only [List.set_cons_succ, List.map_cons, List.sum_cons]
    omega

theorem sum_setIfInBounds (f : α → Nat) {a : Array α} {i : Nat} {x : α} (y : α)
    (h : a[i]? = some x) :
    ((a.setIfInBounds i y).toList.map f).sum + f x = (a.toList.map f).sum + f y := by
  rw [Array.toList_setIfInBounds]
  exact sum_map_set f y a.toList i (by simpa using h)

theorem modify_eq_setIfInBounds {a : Array α} {i : Nat} {x : α} (g : α → α) (h : a[i]? = some x) :
    a.modify i g = a.setIfInBounds i (g x) := by
  apply Array.ext_getElem?
  intro j
  rw [Array.getElem?_modify, Array.getElem?_setIfInBounds]
  split
  · rename_i hij
    subst hij
    have hi : i < a.size := (Array.getElem?_eq_some_iff.1 h).1
    have hx : a[i] = x := (Array.getElem?_eq_some_iff.1 h).2
    simp [hi, hx]
  · rfl

theorem modify_of_none {a : Array α} {i : Nat} (g : α → α) (h : a[i]? = none) :
    a.modify i g = a := by
  apply Array.ext_getElem?
  intro j
  rw [Array.getElem?_modify]
  split
  · rename_i hij
    subst hij
    simp [h]
  · rfl

theorem sum_dropWhile_le (f : α → Nat) (p : α → Bool) (l : List α) :
    ((l.dropWhile p).map f).sum ≤ (l.map f).sum := by
  induction l with
  | nil => simp
  | cons a l ih =>
    rw [List.dropWhile_cons]
    split
    · simp only [List.map_cons, List.sum_cons]
      omega
    · exact Nat.le_refl _

theorem sum_takeWhile_add_dropWhile (f : α → Nat) (p : α → Bool) (l : List α) :
    ((l.takeWhile p).map f).sum + ((l.dropWhile p).map f).sum = (l.map f).sum := by
  rw [← List.sum_append, ← List.map_append, List.takeWhile_append_dropWhile]

theorem sum_map_add_const (f : α → Nat) (k : Nat) (l : List α) :
    (l.map fun a => f a + k).sum = (l.map f).sum + k * l.length := by
  induction l with
  | nil => simp
  | cons a l ih =>
    simp only [List.map_cons, List.sum_cons, List.length_cons, ih, Nat.mul_add]
    omega

end Sums

variable {O : Type} [Outcome O]

/-! ## The weight of promises -/

theorem promiseWeight_listen {O : Type} (p : ScenarioPromise O) (l : Listener O) :
    promiseWeight (p.listen l) = promiseWeight p + (l.weight + 1) := by
  rw [promiseWeight, promiseWeight, Promise.isDone_listen]
  simp only [Promise.listen, List.map_append, List.sum_append,
    List.map_cons, List.map_nil, List.sum_cons, List.sum_nil]
  omega

theorem promiseWeight_link {O : Type} (p : ScenarioPromise O) (j : Nat) :
    promiseWeight (p.link j) = promiseWeight p + 2 := by
  rw [promiseWeight, promiseWeight, Promise.isDone_link]
  simp only [Promise.link, List.length_append, List.length_cons,
    List.length_nil]
  omega

theorem promiseWeight_poll {O : Type} (p : ScenarioPromise O) (same : Waker O → Waker O → Bool)
    (k : Waker O) : promiseWeight (p.poll same k) ≤ promiseWeight p + k.weight := by
  rw [promiseWeight, promiseWeight, Promise.isDone_poll]
  by_cases h : p.wakers.any (same · k)
  · simp only [Promise.poll, h, if_true]
    omega
  · simp only [Promise.poll, h, if_false, List.map_append, List.sum_append, List.map_cons,
      List.map_nil, List.sum_cons, List.sum_nil, Bool.false_eq_true]
    omega

theorem promiseWeight_takeWakers {O : Type} (p : ScenarioPromise O) :
    promiseWeight p.takeWakers.1 + (p.takeWakers.2.map fun k => k.weight).sum =
      promiseWeight p := by
  rw [promiseWeight, promiseWeight, Promise.isDone_takeWakers]
  simp only [Promise.takeWakers, List.map_nil, List.sum_nil]
  have : (p.wakers.map fun k => k.weight).sum = (p.wakers.map Waker.weight).sum := rfl
  omega

theorem promiseWeight_takeCallbacks {O : Type} (p : ScenarioPromise O) :
    promiseWeight p.takeCallbacks.1 + (p.takeCallbacks.2.1.map fun l => l.weight + 1).sum
      + 2 * p.takeCallbacks.2.2.length = promiseWeight p := by
  rw [promiseWeight, promiseWeight, Promise.isDone_takeCallbacks]
  by_cases h : p.listeners.isEmpty && p.links.isEmpty
  · simp [Promise.takeCallbacks, h]
  · simp only [Promise.takeCallbacks, h]
    simp only [Bool.false_eq_true, if_false, List.map_nil, List.sum_nil, List.length_nil]
    omega

/-- Unless all callbacks have been run, some are taken. -/
theorem takeCallbacks_pos {O : Type} (p : ScenarioPromise O)
    (h : p.takeCallbacks.1.drained = false) :
    0 < p.takeCallbacks.2.1.length + p.takeCallbacks.2.2.length := by
  unfold Promise.takeCallbacks at h ⊢
  split at h
  · cases h
  · rename_i hne
    rw [if_neg hne]
    simp only [Bool.and_eq_true, List.isEmpty_iff_length_eq_zero] at hne
    dsimp only
    omega

/-! ## The weight of queues -/

@[simp] theorem deadlinesWeight_empty {O : Type} :
    deadlinesWeight (.empty : TimeoutQueue (Task O)) = 0 := rfl

@[simp] theorem deadlinesWeight_clear {O : Type} (q : TimeoutQueue (Task O)) :
    deadlinesWeight q.clear = 0 := rfl

@[simp] theorem deadlinesWeight_push {O : Type} (q : TimeoutQueue (Task O)) (t : Task O)
    (d : UInt64) :
    deadlinesWeight (q.push t d) = t.weight + deadlinesWeight q := List.sum_cons

/-- The tasks that are due take their weight with them. -/
theorem deadlinesWeight_expire {O : Type} (q : TimeoutQueue (Task O)) (now : UInt64) :
    ((q.expire now).2.map Task.weight).sum + deadlinesWeight
    (q.expire now).1 = deadlinesWeight q := by
  have hsum := ((q.perm_expire now).map Task.weight).sum_nat
  rwa [List.map_append, List.sum_append] at hsum

/-! ## The weight of the world -/

namespace World

variable {w : World O}

@[simp] theorem weight_note (entries : List (Entry O)) : (w.note entries).weight = w.weight := rfl

@[simp] theorem weight_bind (id : String) (h : Handle) : (w.bind id h).weight = w.weight := rfl

@[simp] theorem weight_addPromise (id : String) (permits : Option (Permits (Release O))) :
    (w.addPromise id permits).weight = w.weight + (permitsWeight permits + 2) := by
  simp only [addPromise, weight_bind]
  simp [weight, promiseWeight, Promise.isDone]
  omega

@[simp] theorem weight_addCompletable (id : String) (permits : Option (Permits (Release O))) :
    (w.addCompletable id permits).weight = w.weight + permitsWeight permits := by
  simp only [addCompletable, weight_bind]
  simp [weight, completableWeight, Completable.isDone, Status.isTerminal]
  omega

@[simp] theorem weight_addDeadlines (id : String) : (w.addDeadlines id).weight = w.weight := by
  simp only [addDeadlines, weight_bind]
  simp [weight, deadlinesWeight_empty]

theorem weight_addService (id : String) (s : TimeoutService (Task O)) (start : UInt64) :
    (w.addService id s start).weight = w.weight + serviceWeight s := by
  simp only [addService, weight_bind]
  simp [weight]
  omega

/-- Putting a promise in the place of another changes the weight by the difference of the two. -/
theorem weight_storePromise {i : Nat} {p : ScenarioPromise O} (q : ScenarioPromise O)
    (h : w.promises[i]? = some p) :
    (w.storePromise i q).weight + promiseWeight p = w.weight + promiseWeight q := by
  have := sum_setIfInBounds promiseWeight q h
  simp only [storePromise, weight]
  omega

theorem weight_modifyPromise {i : Nat} {p : ScenarioPromise O}
    (f : ScenarioPromise O → ScenarioPromise O) (h : w.promises[i]? = some p) :
    (w.modifyPromise i f).weight + promiseWeight p = w.weight + promiseWeight (f p) := by
  rw [modifyPromise, modify_eq_setIfInBounds f h]
  exact weight_storePromise (f p) h

theorem weight_modifyPromise_le {i k : Nat} {f : ScenarioPromise O → ScenarioPromise O}
    (h : ∀ p, promiseWeight (f p) ≤ promiseWeight p + k) :
    (w.modifyPromise i f).weight ≤ w.weight + k := by
  cases hp : w.promises[i]? with
  | none =>
    rw [modifyPromise, modify_of_none f hp]
    exact Nat.le_add_right _ _
  | some p =>
    have := weight_modifyPromise f hp
    have := h p
    omega

theorem weight_storeDeadlines {i : Nat} {q : TimeoutQueue (Task O)} (r : TimeoutQueue (Task O))
    (h : w.deadlines[i]? = some q) :
    (w.storeDeadlines i r).weight + deadlinesWeight q = w.weight + deadlinesWeight r := by
  have := sum_setIfInBounds deadlinesWeight r h
  simp only [storeDeadlines, weight]
  omega

theorem weight_setService {i : Nat} {p : PlacedService O} (q : PlacedService O)
    (h : w.services[i]? = some p) :
    ({ w with services := w.services.setIfInBounds i q } : World O).weight + serviceWeight p.service
      = w.weight + serviceWeight q.service := by
  have := sum_setIfInBounds (fun p => serviceWeight p.service) q h
  simp only [weight]
  omega

theorem getElem?_setServiceClock {i : Nat} {p : PlacedService O}
    (h : w.services[i]? = some p) (c : Clock) :
    (w.setServiceClock i c).services[i]? = some { p with clock := c } := by
  simp [setServiceClock, Array.getElem?_modify, h]

theorem weight_setServiceClock (i : Nat) (c : Clock) :
    (w.setServiceClock i c).weight = w.weight := by
  cases h : w.services[i]? with
  | none => rw [setServiceClock, modify_of_none _ h]
  | some p =>
    rw [setServiceClock, modify_eq_setIfInBounds _ h]
    have := weight_setService { p with clock := c } h
    exact Nat.add_right_cancel this

theorem weight_takeHandle (i : Nat) (own busy : Bool) :
    (w.takeHandle i own busy).weight = w.weight := by
  cases h : w.services[i]? with
  | none => rw [takeHandle, modify_of_none _ h]
  | some p =>
    rw [takeHandle, modify_eq_setIfInBounds _ h]
    have := weight_setService { p with handle := p.handle.stop own busy } h
    exact Nat.add_right_cancel this

theorem weight_storeService {i : Nat} {p : PlacedService O} (s : TimeoutService (Task O))
    (h : w.services[i]? = some p) :
    (w.storeService i s).weight + serviceWeight p.service = w.weight + serviceWeight s := by
  rw [storeService, modify_eq_setIfInBounds _ h]
  exact weight_setService { p with service := s } h

/-- A completion takes the return of the permits and two steps off a promise. -/
theorem weight_settlePromise {i : Nat} {c : Completion O} {v : World O}
    {permits : Option (Permits (Release O))} (h : w.settlePromise i c = some (v, permits)) :
    v.weight + (permitsWeight permits + 2) = w.weight := by
  obtain ⟨p, hp, hn, rfl, rfl⟩ := settlePromise_eq_some h
  have := weight_storePromise { p with result := some c } hp
  simp [promiseWeight, Promise.isDone, hn] at this
  omega

/-- A completion takes the return of the permits off a completable. -/
theorem weight_settleCompletable {i : Nat} {c : Completion O} {v : World O}
    {permits : Option (Permits (Release O))} (h : w.settleCompletable i c = some (v, permits)) :
    v.weight + permitsWeight permits = w.weight := by
  obtain ⟨k, hk, hd, rfl, rfl⟩ := settleCompletable_eq_some h
  have := sum_setIfInBounds completableWeight { k with status := c.status } hk
  have hd' : Completable.isDone ({ k with status := c.status } : ScenarioCompletable O) = true :=
    Completion.status_isTerminal c
  simp only [completableWeight, hd, hd', Bool.false_eq_true, if_false, if_true] at this
  simp only [weight]
  omega

/-- A task weighs what its plan weighs. -/
theorem weight_resolveTask {plan : TaskPlan O} {task : Task O} (h : w.resolveTask plan = .ok task) :
    task.weight = plan.weight := by
  cases plan with
  | promise id =>
    simp only [resolveTask] at h
    cases hf : w.findPromise id <;> simp [hf, Except.map] at h
    subst h
    rfl
  | completable id =>
    simp only [resolveTask] at h
    cases hf : w.findCompletable id <;> simp [hf, Except.map] at h
    subst h
    rfl
  | tagged tag script =>
    simp only [resolveTask, Except.ok.injEq] at h
    subst h
    rfl

end World

/-! ## The weight of services -/

theorem sum_insert {τ : Type} (f : Timed τ → Nat) (e : Timed τ) (l : List (Timed τ)) :
    ((DeadlineQueue.insert e l).map f).sum = f e + (l.map f).sum := by
  induction l with
  | nil => simp [DeadlineQueue.insert]
  | cons a l ih =>
    unfold DeadlineQueue.insert
    split
    · simp
    · simp only [List.map_cons, List.sum_cons, ih]
      omega

theorem waitingWeight_push {O : Type} (q : DeadlineQueue (Task O)) (t : Task O) (d : UInt64) :
    waitingWeight (q.push t d) = t.weight + 3 + waitingWeight q := by
  simp only [waitingWeight, DeadlineQueue.push, sum_insert]

/-- The tasks that are due take their weight with them. -/
theorem waitingWeight_expire {O : Type} (q : DeadlineQueue (Task O)) (now : UInt64) :
    ((q.expire now).2.map fun t => t.weight + 3).sum + waitingWeight (q.expire now).1
      = waitingWeight q := by
  simp only [waitingWeight, DeadlineQueue.expire, List.map_map, Function.comp_def]
  exact sum_takeWhile_add_dropWhile _ _ _

theorem serviceWeight_wake {O : Type} (s : TimeoutService (Task O)) (now : UInt64) :
    serviceWeight (s.wake now) + (s.queue.expire now).2.length + workerWeight s.worker
      = serviceWeight s := by
  have h := waitingWeight_expire s.queue now
  have h₃ := sum_map_add_const Task.weight 3 (s.queue.expire now).2
  have h₂ := sum_map_add_const Task.weight 2 (s.queue.expire now).2
  simp only [serviceWeight, TimeoutService.wake, workerWeight]
  omega

theorem serviceWeight_make {O : Type} {c : TimeoutConfig} {s : TimeoutService (Task O)}
    (h : TimeoutService.make c = .ok s) : serviceWeight s = 1 := by
  have hmake : TimeoutService.make c = c.validate.map fun _ =>
      ({ name := c.name, maxTimeout := c.maxTimeout.toWord } : TimeoutService (Task O)) := by
    unfold TimeoutService.make
    cases c.validate <;> rfl
  rw [hmake] at h
  cases hv : c.validate <;> simp [hv, Except.map] at h
  subst h
  rfl

theorem serviceWeight_send {O : Type} {s t : TimeoutService (Task O)} {c : Message (Task O)}
    (h : s.send c = some t) : serviceWeight t = serviceWeight s + messageWeight c := by
  unfold TimeoutService.send at h
  split at h
  · cases h
  · cases h
    simp only [serviceWeight, List.map_append, List.sum_append, List.map_cons, List.map_nil,
      List.sum_cons, List.sum_nil]
    omega

theorem serviceWeight_schedule {O : Type} {s t : TimeoutService (Task O)} {task : Task O}
    {timeout : Duration} {now : UInt64} (h : s.schedule task timeout now = .ok t) :
    serviceWeight t = serviceWeight s + (task.weight + 5) := by
  unfold TimeoutService.schedule at h
  split at h
  · split at h
    · rename_i hs
      cases h
      exact serviceWeight_send hs
    · cases h
  · cases h

theorem serviceWeight_stop {O : Type} (s : TimeoutService (Task O)) :
    serviceWeight ((s.refuse.send .stop).getD s.refuse) ≤ serviceWeight s + 1 := by
  cases h : s.refuse.send .stop with
  | none => exact Nat.le_succ _
  | some t => exact Nat.le_of_eq (serviceWeight_send h)

@[simp] theorem serviceWeight_exit {O : Type} (s : TimeoutService (Task O)) :
    serviceWeight s.exit = 0 := rfl

/-- The task that is fired takes its weight with it. -/
theorem serviceWeight_fireNext {O : Type} {s t : TimeoutService (Task O)} {task : Task O}
    (h : s.fireNext? = some (task, t)) : serviceWeight t + (task.weight + 2) = serviceWeight s := by
  unfold TimeoutService.fireNext? at h
  split at h
  · rename_i due rest hw
    cases h
    simp only [serviceWeight, hw, workerWeight, List.map_cons, List.sum_cons]
    omega
  · cases h

/-- Receiving a message uses up a part of its weight. -/
theorem serviceWeight_receive {O : Type} {s t : TimeoutService (Task O)} (h : s.receive? = some t) :
    serviceWeight t < serviceWeight s := by
  unfold TimeoutService.receive? at h
  split at h
  · rename_i task deadline rest hw hc
    cases h
    simp only [serviceWeight, hw, hc, workerWeight, waitingWeight_push, messageWeight,
      List.map_cons, List.map_nil, List.sum_cons, List.sum_nil]
    omega
  · rename_i rest hw hc
    cases h
    rw [serviceWeight_exit]
    simp only [serviceWeight, hc, messageWeight, List.map_cons, List.sum_cons]
    omega
  · cases h

/-- A deadline that has come makes some task due. -/
theorem length_expire_pos {O : Type} {s : TimeoutService (Task O)} {now : UInt64}
    (h : s.isDue now = true) : 0 < (s.queue.expire now).2.length := by
  unfold TimeoutService.isDue DeadlineQueue.nextDeadline at h
  unfold DeadlineQueue.expire
  cases he : s.queue.entries with
  | nil => simp [he] at h
  | cons e rest =>
    simp only [he, List.head?_cons, Option.map_some, decide_eq_true_eq] at h
    simp [h]

@[simp] theorem serviceWeight_finishFire {O : Type} (s : TimeoutService (Task O)) :
    serviceWeight s.finishFire = serviceWeight s := rfl

@[simp] theorem serviceWeight_crash {O : Type} (s : TimeoutService (Task O)) :
    serviceWeight s.crash = 0 := rfl

end Admission.Scenario
