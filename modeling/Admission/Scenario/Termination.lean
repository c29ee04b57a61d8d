import Admission.Scenario.Machine
import Admission.Scenario.Weight

/-!
# Every command comes to its end

What is on the agenda and what callbacks still wait in the world bound the steps that can follow:
every step takes more off this weight than it brings in. A callback can register further ones, but
it is itself used up, and what it carries was part of its own weight.

## Main results

* `Machine.weight_perform`: an entry of the agenda brings about less than its weight
* `Machine.weight_step`: a step lowers the weight
* `Machine.agenda_run`: when a run ends, nothing is left on the agenda
-/

namespace Admission.Scenario

variable {O : Type} [Outcome O]

namespace Machine

variable {m : Machine O}

/-! ## What does not change the weight -/

@[simp] theorem weight_push (work : List (Work O)) :
    (m.push work).weight = (work.map Work.weight).sum + m.weight := by
  simp only [push, weight, List.map_append, List.sum_append]
  omega

@[simp] theorem weight_answer (r : Reply O) : (m.answer r).weight = m.weight := rfl

@[simp] theorem weight_tell (notes : List (Note O Rejection)) :
    (m.tell notes).weight = m.weight := rfl

@[simp] theorem weight_collect (b : Bench O) : (m.collect b).weight = m.weight := rfl

theorem weight_withWorld (w : World O) :
    ({ m with world := w } : Machine O).weight + m.world.weight = m.weight + w.weight := by
  simp only [weight]
  omega

theorem weight_unwind (message : String) : (m.unwind message).weight ≤ m.weight := by
  simp only [unwind, weight]
  exact Nat.add_le_add_right (sum_dropWhile_le _ _ _) _

theorem serviceWeight_probe {O : Type} (s : TimeoutService (Task O)) (now : UInt64) :
    serviceWeight (probe s now) ≤ serviceWeight s + 6 := by
  unfold probe
  split
  · rename_i t ht
    exact Nat.le_of_eq (serviceWeight_schedule ht)
  · exact Nat.le_add_right _ _

theorem sum_release {O : Type} (h : Holder) (permits : Option (Permits (Release O))) (outcome : O) :
    ((permits.map fun p => Work.release h p outcome).toList.map Work.weight).sum
      = permitsWeight permits := by
  cases permits <;> simp [Work.weight, permitsWeight]

/-- A completion only moves weight from the promise to the agenda. -/
theorem weight_settlePromise (i : Nat) (c : Completion O) :
    (m.settlePromise i c).2.weight = m.weight := by
  unfold settlePromise
  split
  · rename_i w permits h
    have h₁ := World.weight_settlePromise h
    have h₂ := weight_withWorld (m := m) w
    simp only [weight_push, afterSettle, List.map_append, List.sum_append, sum_release, Work.weight,
      List.map_cons, List.map_nil, List.sum_cons, List.sum_nil]
    omega
  · rfl

/-- The same for a completable. -/
theorem weight_settleCompletable (i : Nat) (c : Completion O) :
    (m.settleCompletable i c).2.weight = m.weight := by
  unfold settleCompletable
  split
  · rename_i w permits h
    have h₁ := World.weight_settleCompletable h
    have h₂ := weight_withWorld (m := m) w
    simp only [weight_push, sum_release]
    omega
  · rfl

/-! ## What a command does last

A command answers, or it leaves work on the agenda. The world that it leaves, and that work, must
weigh less than the command and the world before. -/

section Last

variable {k : Nat} {w : World O} {work : List (Work O)}

theorem weight_answer_lt (hk : 0 < k) (r : Reply O) : (m.answer r).weight < k + m.weight := by
  rw [weight_answer]
  omega

theorem weight_push_lt (h : (work.map Work.weight).sum < k) :
    (m.push work).weight < k + m.weight := by
  rw [weight_push]
  omega

theorem weight_put_answer_lt (h : w.weight < k + m.world.weight) (r : Reply O) :
    ({ m with world := w }.answer r).weight < k + m.weight := by
  have := weight_withWorld (m := m) w
  rw [weight_answer]
  omega

theorem weight_put_push_lt (h : (work.map Work.weight).sum + w.weight < k + m.world.weight) :
    ({ m with world := w }.push work).weight < k + m.weight := by
  have := weight_withWorld (m := m) w
  rw [weight_push]
  omega

end Last

/-! ## What a command finds -/

section Found

variable {k : Nat} (hk : 0 < k)
include hk

theorem weight_withFound {α : Type} {found : Except Fault α} {f : α → Machine O}
    (h : ∀ a, found = .ok a → (f a).weight < k + m.weight) :
    (m.withFound found f).weight < k + m.weight := by
  unfold withFound
  split
  · exact h _ rfl
  · exact weight_answer_lt hk _

theorem weight_withPromise {id : String} {f : Nat → ScenarioPromise O → Machine O}
    (h : ∀ i p, m.world.promises[i]? = some p → (f i p).weight < k + m.weight) :
    (m.withPromise id f).weight < k + m.weight := by
  refine weight_withFound hk fun i _ => ?_
  split
  · exact h i _ (by assumption)
  · exact weight_answer_lt hk _

theorem weight_withDeadlines {id : String} {f : Nat → TimeoutQueue (Task O) → Machine O}
    (h : ∀ i q, m.world.deadlines[i]? = some q → (f i q).weight < k + m.weight) :
    (m.withDeadlines id f).weight < k + m.weight := by
  refine weight_withFound hk fun i _ => ?_
  split
  · exact h i _ (by assumption)
  · exact weight_answer_lt hk _

theorem weight_withService {id : String} {f : Nat → PlacedService O → Machine O}
    (h : ∀ i s, m.world.services[i]? = some s → (f i s).weight < k + m.weight) :
    (m.withService id f).weight < k + m.weight := by
  refine weight_withFound hk fun i _ => ?_
  split
  · exact h i _ (by assumption)
  · exact weight_answer_lt hk _

theorem weight_withTask {plan : TaskPlan O} {f : Task O → Machine O}
    (h : ∀ task : Task O, task.weight = plan.weight → (f task).weight < k + m.weight) :
    (m.withFound (m.world.resolveTask plan) f).weight < k + m.weight :=
  weight_withFound hk fun _ ht => h _ (World.weight_resolveTask ht)

theorem weight_withPermits {rail : String} {units now : UInt64} {held : Bool}
    {f : Permits (Release O) → World O → World O}
    (h : ∀ i w, (f { units, start := now, release := .rail i } w).weight < k + w.weight) :
    (m.withPermits rail units now held f).weight < k + m.weight := by
  refine weight_withFound hk fun i _ => ?_
  cases held
  · simp only [Bool.false_eq_true, if_false]
    split
    · exact weight_answer_lt (m := m.collect _) hk _
    · exact weight_put_answer_lt (m := m.collect _) (h i _) _
  · exact weight_put_answer_lt (h i _) _

end Found

/-! ## Commands -/

/-- The first to complete a promise leaves its callbacks, and others leave nothing. -/
theorem weight_start_settle (id : String) (c : Completion O) :
    (m.start (.settle id c)).weight < 2 + m.weight := by
  refine weight_withFound (by omega) fun i _ => ?_
  have := weight_settlePromise (m := m.push [.reply (.ok (.truth true))]) i c
  simp only [weight_push, List.map_cons, List.map_nil, List.sum_cons, List.sum_nil,
    Work.weight] at this
  dsimp only
  split
  · omega
  · exact weight_answer_lt (by omega) _

theorem weight_start_complete (id : String) (c : Completion O) :
    (m.start (.complete id c)).weight < 2 + m.weight := by
  refine weight_withFound (by omega) fun i _ => ?_
  have := weight_settleCompletable (m := m.push [.reply (.ok (.truth true))]) i c
  simp only [weight_push, List.map_cons, List.map_nil, List.sum_cons, List.sum_nil,
    Work.weight] at this
  dsimp only
  split
  · omega
  · exact weight_answer_lt (by omega) _

theorem weight_start_listen (id tag : String) (script : Script O) :
    (m.start (.listen id tag script)).weight < script.weight + 4 + m.weight := by
  refine weight_withPromise (by omega) fun i p hp => ?_
  split
  · exact weight_push_lt (by simp [Work.weight, Listener.weight])
  · have h₁ := World.weight_modifyPromise (·.listen ⟨tag, script⟩) hp
    have h₂ := promiseWeight_listen p ⟨tag, script⟩
    simp only [Listener.weight] at h₂
    refine weight_put_answer_lt ?_ _
    omega

theorem weight_start_link (id target : String) :
    (m.start (.link id target)).weight < 3 + m.weight := by
  refine weight_withPromise (by omega) fun i p hp => ?_
  refine weight_withFound (by omega) fun j _ => ?_
  split
  · exact weight_push_lt (by simp [Work.weight])
  · have h₁ := World.weight_modifyPromise (·.link j) hp
    have h₂ := promiseWeight_link p j
    refine weight_put_answer_lt ?_ _
    omega

theorem weight_start_poll (id waker : String) (script : Script O) :
    (m.start (.poll id waker script)).weight < script.weight + 3 + m.weight := by
  refine weight_withFound (by omega) fun i _ => ?_
  split
  · exact weight_answer_lt (by omega) _
  · have := World.weight_modifyPromise_le (w := m.world) (i := i)
      (k := script.weight + 2) (f := fun p => p.poll (fun a b => a.tag == b.tag) ⟨waker, script⟩)
      fun p => promiseWeight_poll p _ ⟨waker, script⟩
    refine weight_put_answer_lt ?_ _
    omega

/-- The tasks that are due go from the queue to the agenda. -/
theorem weight_start_expire (id : String) (now : UInt64) :
    (m.start (.expire id now)).weight < 2 + m.weight := by
  refine weight_withDeadlines (by omega) fun i q hq => ?_
  have h₁ := deadlinesWeight_expire q now
  generalize q.expire now = expired at h₁ ⊢
  obtain ⟨r, due⟩ := expired
  have h₂ := World.weight_storeDeadlines r hq
  refine weight_put_push_lt ?_
  have hdue : (due.map Work.fire).map Work.weight = due.map Task.weight := List.map_map
  simp only [List.map_append, List.sum_append, hdue, List.map_cons, List.map_nil,
    List.sum_cons, List.sum_nil, Work.weight]
  dsimp only at h₁
  omega

theorem weight_start_service (id : String) (config : TimeoutConfig) (start : UInt64) :
    (m.start (.service id config start)).weight < 4 + m.weight := by
  simp only [Machine.start]
  split
  · rename_i s hs
    split
    · rename_i message _
      have := weight_unwind (m := m) message
      omega
    · have h₁ := weight_withWorld (m := m) (m.world.addService id s start)
      have h₂ := serviceWeight_make hs
      simp only [weight_push, weight_tell, World.weight_addService, List.map_cons, List.map_nil,
        List.sum_cons, List.sum_nil, Work.weight] at h₁ ⊢
      omega
  · exact weight_answer_lt (by omega) _

/-- What is scheduled is put into the service, with a probe behind it. -/
theorem weight_start_schedule (id : String) (plan : TaskPlan O) (timeout : Duration)
    (now : Option UInt64) :
    (m.start (.schedule id plan timeout now)).weight < plan.weight + 14 + m.weight := by
  refine weight_withService (by omega) fun i s hs => ?_
  refine weight_withTask (by omega) fun task ht => ?_
  split
  · rename_i t hsched
    have h₁ := World.weight_storeService (probe t s.clock.now) hs
    have h₂ := serviceWeight_schedule hsched
    have h₃ := serviceWeight_probe t s.clock.now
    refine weight_put_push_lt ?_
    simp only [List.map_cons, List.map_nil, List.sum_cons, List.sum_nil, Work.weight]
    omega
  · exact weight_answer_lt (by omega) _

theorem weight_start_setServiceClock (id : String) (now : UInt64) :
    (m.start (.setServiceClock id now)).weight < 9 + m.weight := by
  refine weight_withService (by omega) fun i s hs => ?_
  have hset := World.weight_setServiceClock (w := m.world) i ⟨now⟩
  dsimp only
  split
  · have h₁ :=
      World.weight_storeService (probe s.service now) (World.getElem?_setServiceClock hs ⟨now⟩)
    have h₂ := serviceWeight_probe s.service now
    dsimp only at h₁
    refine weight_put_push_lt ?_
    simp only [List.map_cons, List.map_nil, List.sum_cons, List.sum_nil, Work.weight]
    omega
  · exact weight_put_answer_lt (by rw [hset]; omega) _

theorem weight_start_stopService (id : String) :
    (m.start (.stopService id)).weight < 4 + m.weight := by
  refine weight_withService (by omega) fun i s hs => ?_
  have h₁ := World.weight_storeService ((s.service.refuse.send .stop).getD s.service.refuse) hs
  have h₂ := serviceWeight_stop s.service
  refine weight_put_push_lt ?_
  rw [World.weight_takeHandle]
  simp only [List.map_cons, List.map_nil, List.sum_cons, List.sum_nil, Work.weight]
  omega

theorem weight_start_killService (id : String) (plan : TaskPlan O) (timeout : Duration) :
    (m.start (.killService id plan timeout)).weight < 1 + m.weight := by
  refine weight_withService (by omega) fun i s hs => ?_
  refine weight_withTask (by omega) fun task ht => ?_
  split
  · rename_i t hsched
    have h₁ := World.weight_storeService t.crash hs
    have h₂ := serviceWeight_crash t
    refine weight_put_answer_lt ?_ _
    omega
  · exact weight_answer_lt (by omega) _

/-- A command brings about less than its weight. -/
theorem weight_start (c : Command O) : (m.start c).weight < c.weight + m.weight := by
  have hpos : 0 < c.weight := by cases c <;> simp [Command.weight]
  cases c with
  | bench c =>
    simp only [start]
    split
    · exact weight_answer_lt (m := m.collect _) hpos _
    · exact Nat.lt_of_le_of_lt (weight_unwind _) (Nat.lt_add_of_pos_left hpos)
    · exact weight_answer_lt hpos _
  | panic message => exact Nat.lt_of_le_of_lt (weight_unwind _) (Nat.lt_add_of_pos_left hpos)
  | promise id =>
    exact weight_put_answer_lt (by simp [Command.weight, permitsWeight, Nat.add_comm]) _
  | promiseWithPermits id clock units start script =>
    refine weight_withFound hpos fun c _ => weight_put_answer_lt ?_ _
    simp only [Command.weight, World.weight_addPromise, permitsWeight, Release.weight]
    omega
  | settle id c => exact weight_start_settle id c
  | ask id q => exact weight_withPromise hpos fun i p _ => weight_answer_lt hpos _
  | listen id tag script => exact weight_start_listen id tag script
  | link id target => exact weight_start_link id target
  | future id as =>
    exact weight_withFound hpos fun i _ => weight_put_answer_lt (by simp [Command.weight]) _
  | poll id waker script => exact weight_start_poll id waker script
  | waitWhile id body =>
    exact weight_withFound hpos fun i _ => weight_push_lt (by simp [Work.weight, Command.weight])
  | completable id => exact weight_put_answer_lt (by simp [Command.weight, permitsWeight]) _
  | completableWithPermits id clock units start script =>
    refine weight_withFound hpos fun c _ => weight_put_answer_lt ?_ _
    simp only [Command.weight, World.weight_addCompletable, permitsWeight, Release.weight]
    omega
  | complete id c => exact weight_start_complete id c
  | completableStatus id =>
    refine weight_withFound hpos fun i _ => ?_
    split <;> exact weight_answer_lt hpos _
  | railPromise rail units now as held =>
    refine weight_withPermits hpos fun i w => ?_
    simp only [Command.weight, World.weight_addPromise, permitsWeight, Release.weight]
    omega
  | railCompletable rail units now as held =>
    refine weight_withPermits hpos fun i w => ?_
    simp only [Command.weight, World.weight_addCompletable, permitsWeight, Release.weight]
    omega
  | deadlines id => exact weight_put_answer_lt (by simp [Command.weight]) _
  | push id plan deadline =>
    refine weight_withDeadlines hpos fun i q hq => weight_withTask hpos fun task ht => ?_
    have := World.weight_storeDeadlines (q.push task deadline) hq
    rw [deadlinesWeight_push] at this
    refine weight_put_answer_lt ?_ _
    rw [Command.weight]
    omega
  | nextDeadline id => exact weight_withDeadlines hpos fun i q _ => weight_answer_lt hpos _
  | deadlinesSize id => exact weight_withDeadlines hpos fun i q _ => weight_answer_lt hpos _
  | clearDeadlines id =>
    refine weight_withDeadlines hpos fun i q hq => weight_put_answer_lt ?_ _
    have := World.weight_storeDeadlines q.clear hq
    rw [deadlinesWeight_clear] at this
    omega
  | expire id now => exact weight_start_expire id now
  | deadlinesDebug id => exact weight_withDeadlines hpos fun i q _ => weight_answer_lt hpos _
  | service id config start => exact weight_start_service id config start
  | schedule id plan timeout now => exact weight_start_schedule id plan timeout now
  | setServiceClock id now => exact weight_start_setServiceClock id now
  | serviceParts id => exact weight_withService hpos fun i s _ => weight_answer_lt hpos _
  | serviceDebug id => exact weight_withService hpos fun i s _ => weight_answer_lt hpos _
  | stopService id => exact weight_start_stopService id
  | killService id plan timeout => exact weight_start_killService id plan timeout

theorem weight_fold_le (n : Nat) (f : (i : Nat) → i < n → Machine O → Machine O)
    (h : ∀ i hi m, (f i hi m).weight ≤ m.weight) (m : Machine O) :
    (n.fold f m).weight ≤ m.weight := by
  induction n with
  | zero => exact Nat.le_refl _
  | succ n ih =>
    rw [Nat.fold_succ]
    exact Nat.le_trans (h _ _ _) (ih _ fun i hi m => h i _ m)

theorem weight_retire (m : Machine O) : m.retire.weight ≤ m.weight := by
  refine weight_fold_le _ _ (fun i _ m => ?_) m
  split
  · rename_i s hs
    have h₁ := World.weight_storeService s.service.exit hs
    have h₂ := weight_withWorld (m := m) (m.world.storeService i s.service.exit)
    rw [serviceWeight_exit] at h₁
    split
    · rw [weight_tell]
      omega
    · exact Nat.le_refl _
  · exact Nat.le_refl _

/-! ## Callbacks -/

theorem weight_returnPermits (p : Permits (Release O)) (outcome : O) :
    (m.returnPermits p outcome).weight < p.release.weight + m.weight := by
  unfold returnPermits
  cases h : p.release with
  | rail i =>
    simp only [weight_collect, Release.weight]
    omega
  | scripted id clock script =>
    have := weight_withWorld (m := m) (m.world.note
      [.permits id p.units outcome p.start (m.world.releaseTime (.scripted id clock script))])
    simp only [weight_push, World.weight_note, Release.weight, Work.weight, List.map_cons,
      List.map_nil, List.sum_cons, List.sum_nil] at this ⊢
    omega

theorem weight_fireTask (task : Task O) : (m.fireTask task).weight < task.weight + m.weight := by
  cases task with
  | promise i =>
    simp only [fireTask, weight_settlePromise, Task.weight]
    omega
  | completable i =>
    simp only [fireTask, weight_settleCompletable, Task.weight]
    omega
  | tagged tag script =>
    have := weight_withWorld (m := m) (m.world.note [.timeout tag])
    simp only [fireTask, weight_push, World.weight_note, Task.weight, Work.weight, List.map_cons,
      List.map_nil, List.sum_cons, List.sum_nil] at this ⊢
    omega
  | probe =>
    simp only [fireTask, Task.weight]
    omega

/-- A worker that goes on uses up what it does. -/
theorem weight_serve (i : Nat) : (m.serve i).weight < 1 + m.weight := by
  have hm : m.weight < 1 + m.weight := by omega
  unfold serve
  split
  · exact hm
  split
  · exact hm
  rename_i p hp
  have hgo : ∀ t, serviceWeight t < serviceWeight p.service →
      ({ m with world := m.world.storeService i t }.push [.serve i]).weight < 1 + m.weight := by
    intro t ht
    have h₁ := World.weight_storeService t hp
    have h₂ := weight_withWorld (m := m) (m.world.storeService i t)
    simp only [weight_push, Work.weight, List.map_cons, List.map_nil, List.sum_cons, List.sum_nil]
    omega
  dsimp only
  split
  · exact hm
  · rename_i hw
    refine hgo _ ?_
    have := serviceWeight_wake p.service p.clock.now
    simp only [hw, workerWeight] at this
    omega
  split
  · rename_i task t ht
    have h₁ := World.weight_storeService t hp
    have h₂ := weight_withWorld (m := m) (m.world.storeService i t)
    have h₃ := serviceWeight_fireNext ht
    simp only [weight_push, Work.weight, List.map_cons, List.map_nil, List.sum_cons, List.sum_nil]
    omega
  split
  · rename_i t ht
    exact hgo _ (serviceWeight_receive ht)
  split
  · -- A deadline has come, so the worker takes out a task at least.
    rename_i hd
    refine hgo _ ?_
    have := serviceWeight_wake p.service p.clock.now
    have := length_expire_pos hd
    omega
  · exact hm

/-- What the first entry of the agenda brings about weighs less than the entry. -/
theorem weight_perform (work : Work O) : (m.perform work).weight < work.weight + m.weight := by
  cases work with
  | command c => exact Nat.lt_of_le_of_lt (weight_retire _) (weight_start c)
  | report name =>
    have := weight_withWorld (m := m) (m.world.note [.action name m.last])
    simp only [perform, World.weight_note, Work.weight] at this ⊢
    omega
  | script s =>
    cases s with
    | done =>
      simp only [perform, Work.weight]
      omega
    | act name c rest =>
      simp only [perform, weight_push, Work.weight, Script.weight, List.map_cons, List.map_nil,
        List.sum_cons, List.sum_nil]
      omega
  | release _ p outcome => exact weight_returnPermits p outcome
  | wakeAll i =>
    simp only [perform, Work.weight]
    split
    · rename_i p hp
      have h₁ := World.weight_storePromise p.takeWakers.1 hp
      have h₂ := weight_withWorld (m := m) (m.world.storePromise i p.takeWakers.1)
      have h₃ := promiseWeight_takeWakers p
      simp only [weight_push, List.map_map, Function.comp_def, Work.weight]
      omega
    · omega
  | wake _ k =>
    have := weight_withWorld (m := m) (m.world.note [.wake k.tag])
    simp only [perform, weight_push, World.weight_note, Work.weight, Waker.weight, List.map_cons,
      List.map_nil, List.sum_cons, List.sum_nil] at this ⊢
    omega
  | drain i =>
    simp only [perform, Work.weight]
    split
    · rename_i p hp
      have h₁ := promiseWeight_takeCallbacks p
      have h₂ := takeCallbacks_pos p
      generalize p.takeCallbacks = taken at h₁ h₂ ⊢
      obtain ⟨q, listeners, links⟩ := taken
      have h₃ := World.weight_storePromise q hp
      have h₄ := weight_withWorld (m := m) (m.world.storePromise i q)
      dsimp only at h₁ h₂ ⊢
      split
      · split
        · omega
        · -- Each callback that is taken leaves one step over for the next round.
          rename_i hd
          have h₅ := h₂ (by simpa using hd)
          have h₆ := sum_map_add_const (fun l : Listener O => l.weight) 1 listeners
          simp only [weight_push, List.map_append, List.sum_append, List.map_map, Function.comp_def,
            Work.weight, List.map_cons, List.map_nil, List.sum_cons, List.sum_nil, List.map_const',
              List.sum_replicate_nat, Nat.mul_one]
          omega
      · omega
    · omega
  | listener _ l c =>
    have := weight_withWorld (m := m) (m.world.note [.listener l.tag c])
    simp only [perform, weight_push, World.weight_note, Work.weight, Listener.weight, List.map_cons,
      List.map_nil, List.sum_cons, List.sum_nil] at this ⊢
    omega
  | forward _ j c =>
    simp only [perform, weight_settlePromise, Work.weight]
    omega
  | fire task => exact weight_fireTask task
  | fired i =>
    simp only [perform, Work.weight]
    split
    · rename_i p hp
      have h₁ := World.weight_storeService p.service.finishFire hp
      have h₂ := weight_withWorld (m := m) (m.world.storeService i p.service.finishFire)
      rw [serviceWeight_finishFire] at h₁
      omega
    · omega
  | serve i => exact weight_serve i
  | reply r =>
    simp only [perform, weight_answer, Work.weight]
    omega
  | replyPending i =>
    have := weight_retire
      (m.answer (.ok (.pendingTasks ((m.world.services[i]?.map (·.service.pending)).getD 0))))
    simp only [perform, weight_answer, Work.weight] at this ⊢
    omega
  | stopped i wasAccepting =>
    cases wasAccepting <;> simp [perform, Work.weight]
  | await i =>
    simp only [perform, weight_settlePromise, weight_push, Work.weight, List.map_cons, List.map_nil,
      List.sum_cons, List.sum_nil]
    omega
  | waited i reply =>
    simp only [perform, Work.weight]
    split
    · rw [weight_answer]
      omega
    · omega

/-! ## Runs -/

/-- A step lowers the weight. -/
theorem weight_step (h : m.agenda ≠ []) : m.step.weight < m.weight := by
  unfold step
  split
  · contradiction
  · rename_i work rest hw
    have := weight_perform (m := { m with agenda := rest }) work
    simp only [weight, hw, List.map_cons, List.sum_cons] at this ⊢
    omega

/-- When the steps are as many as the weight, nothing is left on the agenda. -/
theorem agenda_steps {n : Nat} {m : Machine O} (h : m.weight ≤ n) : (steps n m).agenda = [] := by
  induction n generalizing m with
  | zero =>
    unfold steps
    cases ha : m.agenda with
    | nil => rfl
    | cons work rest =>
      have := weight_step (m := m) (by simp [ha])
      omega
  | succ n ih =>
    unfold steps
    split
    · assumption
    · rename_i ha
      refine ih ?_
      have := weight_step (m := m) (by simp [ha])
      omega

/-- When a run ends, nothing is left on the agenda. -/
theorem agenda_run : m.run.agenda = [] := agenda_steps (Nat.le_refl _)

end Machine

end Admission.Scenario
