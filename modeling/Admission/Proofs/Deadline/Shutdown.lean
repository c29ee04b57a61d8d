import Admission.Proofs.Deadline.Traffic

/-!
# Stopping a timeout service

A call that stops a timeout service lets no more callers in, sends the worker a message to stop,
takes the handle of the worker's thread, and waits for that thread to end. It takes the handle
behind a lock, and it keeps the lock while it waits. A task that is being fired may stop the service
too. Its call is on the worker's own thread, so it takes the handle and does not wait.

The worker ends when it receives a message to stop. It takes back the counts of the tasks in its
queue, lets no more callers in, and goes with the channel, whose messages nobody receives any more.
All these steps fall between those of callers and of other calls to stop, in any order.

## Main definitions

* `Shutdown`: a timeout service with its callers and with the calls that stop it
* `CallStep`, `WorkStep`, `StopStep`, `Shutdown.Step`: the steps of the three parties
* `Shutdown.ahead`, `Shutdown.behind`: the tasks that were sent before the first message to stop,
  and after it
* `Shutdown.fired`, `Shutdown.upcoming`: the tasks that have been fired, and those that the worker
  can still fire

## Main results

* `Step.of_traffic`: before anybody calls to stop, the steps are those of callers and a worker
* `WorkStep.exit`: the last steps of the worker, without a break, are those of `exit`
-/

namespace Admission

/-- The tasks that come before the first message to stop. -/
def Message.inFront {τ : Type} : List (Message τ) → List τ
  | .schedule task _ :: rest => task :: inFront rest
  | _ => []

section InFront

variable {τ : Type} {l l' : List (Message τ)}

theorem Message.inFront_append_of_mem (h : .stop ∈ l) : inFront (l ++ l') = inFront l := by
  induction l with
  | nil => cases h
  | cons m rest ih =>
    cases m with
    | stop => rfl
    | schedule task deadline =>
      have hne : Message.stop ≠ .schedule task deadline := fun heq => nomatch heq
      exact congrArg (task :: ·) (ih (List.mem_of_ne_of_mem hne h))

theorem Message.inFront_append_of_notMem (h : .stop ∉ l) :
    inFront (l ++ l') = inFront l ++ inFront l' := by
  induction l with
  | nil => rfl
  | cons m rest ih =>
    cases m with
    | stop => exact absurd List.mem_cons_self h
    | schedule task deadline =>
      exact congrArg (task :: ·) (ih fun hrest => h (List.mem_cons_of_mem _ hrest))

theorem Message.inFront_append_stop (l : List (Message τ)) :
    inFront (l ++ [.stop]) = inFront l := by
  by_cases h : .stop ∈ l
  · exact inFront_append_of_mem h
  · exact (inFront_append_of_notMem h).trans (List.append_nil _)

end InFront

namespace TimeoutService

variable {τ : Type}

/-! ## Callers, the worker and those who stop it -/

/-- The thread that a call runs on. -/
inductive Thread where
  /-- That of the worker: the task that is being fired makes the call. -/
  | worker
  | other
deriving DecidableEq, Repr

/-- How far a call to stop has got. -/
inductive StopStage where
  /-- It has let no more callers in. -/
  | refused
  /-- It has sent the message to stop, and takes the lock next. -/
  | posted
  /-- It has the lock and waits for the worker to end. -/
  | joining
  /-- It has the lock and releases it next. -/
  | leaving
  | returned
deriving DecidableEq, Repr

/-- A call to stop the service. -/
structure StopCall where
  thread : Thread
  stage : StopStage
deriving DecidableEq, Repr

/-- How far the worker has got on its way out. -/
inductive WorkerStage where
  /-- It goes round and has received no message to stop. -/
  | looping
  | left
  /-- It has taken back the counts of the tasks in its queue. -/
  | uncounted
  /-- It has let no more callers in. -/
  | closed
  | ended
deriving DecidableEq, Repr

/-- A timeout service with its callers and with the calls that stop it. -/
structure Shutdown (τ : Type) where
  traffic : Traffic τ
  /-- The calls whose tasks are counted and could not be sent. -/
  failed : List (Call τ) := []
  /-- How many tasks had been sent when the first message to stop was. -/
  mark : Option Nat := none
  stage : WorkerStage := .looping
  stops : List StopCall := []
  /-- The thread of the call that has taken the handle. -/
  taker : Option Thread := none

namespace Shutdown

/-- The tasks that have been fired, in this order. The last may be being fired. -/
def fired (c : Shutdown τ) : List (Call τ) :=
  c.traffic.finished.map (·.1) ++ c.traffic.running.toList

/-- The tasks that were sent before the first message to stop. -/
def ahead (c : Shutdown τ) : List (Call τ) :=
  match c.mark with
  | none => c.traffic.sent
  | some n => c.traffic.sent.take n

/-- The tasks that were sent after the first message to stop. -/
def behind (c : Shutdown τ) : List (Call τ) :=
  match c.mark with
  | none => []
  | some n => c.traffic.sent.drop n

theorem ahead_append_behind (c : Shutdown τ) : c.ahead ++ c.behind = c.traffic.sent := by
  unfold ahead behind
  cases c.mark with
  | none => exact List.append_nil _
  | some n => exact List.take_append_drop n _

/-- The tasks in the channel that the worker will still receive. -/
def front (c : Shutdown τ) : List (Call τ) :=
  match c.stage with
  | .looping => Message.inFront c.traffic.service.channel
  | _ => []

/-- The tasks that the worker can still fire, apart from the one that it is firing. -/
def upcoming (c : Shutdown τ) : List (Call τ) :=
  c.traffic.service.due ++ (c.traffic.service.held ++ c.front)

/-- The task that is being fired has called to stop the service, and waits for that call. -/
def Inside (c : Shutdown τ) : Prop := ∃ p ∈ c.stops, p.thread = .worker ∧ p.stage ≠ .returned

/-- A call to stop has the lock. -/
def Locked (c : Shutdown τ) : Prop := ∃ p ∈ c.stops, p.stage = .joining ∨ p.stage = .leaving

instance (c : Shutdown τ) : Decidable c.Inside :=
  inferInstanceAs (Decidable (∃ p ∈ c.stops, p.thread = .worker ∧ p.stage ≠ .returned))

instance (c : Shutdown τ) : Decidable c.Locked :=
  inferInstanceAs (Decidable (∃ p ∈ c.stops, p.stage = .joining ∨ p.stage = .leaving))

/-- A step of a caller. -/
inductive CallStep : Shutdown τ → Shutdown τ → Prop where
  | enter {c : Shutdown τ} (task : τ) (timeout : Duration) (now : UInt64)
      (h : c.traffic.service.accepting = true) :
      CallStep c { c with traffic := c.traffic.enter task timeout now }
  | count {c : Shutdown τ} (before : List (Call τ)) {after : List (Call τ)} {x : Call τ}
      (h : c.traffic.entered = before ++ x :: after) : CallStep c
      { c with
        traffic.service := c.traffic.service.announce
        traffic.entered := before ++ after
        traffic.counted := x :: c.traffic.counted }
  | send {c : Shutdown τ} (before : List (Call τ)) {after : List (Call τ)} {x : Call τ}
      {s : TimeoutService (Call τ)} (h : c.traffic.counted = before ++ x :: after)
      (hs : c.traffic.service.send (c.traffic.message x) = some s) : CallStep c
      { c with
        traffic.service := s
        traffic.counted := before ++ after
        traffic.sent := c.traffic.sent ++ [x] }
  /-- Nobody receives messages any more. -/
  | fail {c : Shutdown τ} (before : List (Call τ)) {after : List (Call τ)} {x : Call τ}
      (h : c.traffic.counted = before ++ x :: after)
      (hs : c.traffic.service.send (c.traffic.message x) = none) :
      CallStep c { c with traffic.counted := before ++ after, failed := x :: c.failed }
  | retract {c : Shutdown τ} (before : List (Call τ)) {after : List (Call τ)} {x : Call τ}
      (h : c.failed = before ++ x :: after) : CallStep c
      { c with traffic.service := c.traffic.service.retract, failed := before ++ after }

/-- A step of the worker. -/
inductive WorkStep : Shutdown τ → Shutdown τ → Prop where
  | wake {c : Shutdown τ} (now : UInt64) (hstage : c.stage = .looping)
      (hr : c.traffic.running = none) (h : c.traffic.service.Awake) :
      WorkStep c { c with traffic := c.traffic.wake now }
  | fire {c : Shutdown τ} {x : Call τ} {s : TimeoutService (Call τ)} (hstage : c.stage = .looping)
      (hr : c.traffic.running = none) (h : c.traffic.service.fireNext? = some (x, s)) :
      WorkStep c { c with traffic := c.traffic.fire x s }
  /-- A task that stops the service goes on when its call has returned. -/
  | finish {c : Shutdown τ} {x : Call τ} (ending : Ending) (hr : c.traffic.running = some x)
      (h : ¬ c.Inside) : WorkStep c { c with traffic := c.traffic.finish x ending }
  | receive {c : Shutdown τ} {s : TimeoutService (Call τ)} (hstage : c.stage = .looping)
      (hr : c.traffic.running = none) (h : c.traffic.service.receive? = some s)
      (hs : s.worker ≠ .exited) : WorkStep c { c with traffic.service := s }
  | leave {c : Shutdown τ} {rest : List (Message (Call τ))} (hstage : c.stage = .looping)
      (hr : c.traffic.running = none) (hw : c.traffic.service.worker = .firing [])
      (h : c.traffic.service.channel = .stop :: rest) :
      WorkStep c { c with traffic.service.channel := rest, stage := .left }
  | uncount {c : Shutdown τ} (hstage : c.stage = .left) : WorkStep c
      { c with
        traffic.service.pending := c.traffic.service.pending - c.traffic.service.queue.size
        traffic.service.queue := .empty
        stage := .uncounted }
  | close {c : Shutdown τ} (hstage : c.stage = .uncounted) :
      WorkStep c { c with traffic.service.accepting := false, stage := .closed }
  | terminate {c : Shutdown τ} (hstage : c.stage = .closed) : WorkStep c
      { c with traffic.service.channel := [], traffic.service.worker := .exited, stage := .ended }

/-- A step of a call to stop the service. -/
inductive StopStep : Shutdown τ → Shutdown τ → Prop where
  /-- On the worker's thread it is the task being fired that calls. -/
  | refuse {c : Shutdown τ} (thread : Thread)
      (h : thread = .worker → c.traffic.running.isSome ∧ ¬ c.Inside) : StopStep c
      { c with traffic.service := c.traffic.service.refuse, stops := ⟨thread, .refused⟩ :: c.stops }
  | post {c : Shutdown τ} (before : List StopCall) {after : List StopCall} {thread : Thread}
      (h : c.stops = before ++ ⟨thread, .refused⟩ :: after) : StopStep c
      { c with
        traffic.service := (c.traffic.service.send .stop).getD c.traffic.service
        mark := c.mark.or (some c.traffic.sent.length)
        stops := before ++ ⟨thread, .posted⟩ :: after }
  /-- The handle is taken by the first call that comes. It waits if that is not on the worker's own
  thread. -/
  | take {c : Shutdown τ} (before : List StopCall) {after : List StopCall} {thread : Thread}
      (h : c.stops = before ++ ⟨thread, .posted⟩ :: after) (hl : ¬ c.Locked) : StopStep c
      { c with
        stops := before ++
          ⟨thread, if c.taker = none ∧ thread = .other then .joining else .leaving⟩ :: after
        taker := c.taker.or (some thread) }
  | join {c : Shutdown τ} (before : List StopCall) {after : List StopCall} {thread : Thread}
      (h : c.stops = before ++ ⟨thread, .joining⟩ :: after)
      (he : c.traffic.service.isExited = true) :
      StopStep c { c with stops := before ++ ⟨thread, .leaving⟩ :: after }
  | release {c : Shutdown τ} (before : List StopCall) {after : List StopCall} {thread : Thread}
      (h : c.stops = before ++ ⟨thread, .leaving⟩ :: after) :
      StopStep c { c with stops := before ++ ⟨thread, .returned⟩ :: after }

/-- A step of any of them. -/
inductive Step : Shutdown τ → Shutdown τ → Prop where
  | call {c d : Shutdown τ} (h : CallStep c d) : Step c d
  | work {c d : Shutdown τ} (h : WorkStep c d) : Step c d
  | stop {c d : Shutdown τ} (h : StopStep c d) : Step c d

section Links

variable {c : Shutdown τ} {s : TimeoutService (Call τ)}

/-- As long as nobody has called to stop, the steps are those of callers and a worker alone. -/
theorem Step.of_traffic {limit : Duration} {t u : Traffic τ} (ho : t.Orderly limit)
    (h : TimeoutService.Step t u) : Step { traffic := t } { traffic := u } := by
  have halive := (ho.step h).alive
  cases h with
  | enter task timeout now h => exact .call (.enter task timeout now h)
  | count before h => exact .call (.count before h)
  | send before h hs => exact .call (.send before h hs)
  | wake now hr h => exact .work (.wake now rfl hr h)
  | fire hr h => exact .work (.fire rfl hr h)
  | finish ending hr => exact .work (.finish ending hr fun ⟨_, hp, _⟩ => nomatch hp)
  | receive hr h => exact .work (.receive rfl hr h halive)

/-- **The last steps of the worker**, if nothing comes between them, are those of a worker that
receives a message to stop. -/
theorem WorkStep.exit (hstage : c.stage = .looping) (hr : c.traffic.running = none)
    (h : c.traffic.service.receive? = some s) (hs : s.worker = .exited) :
    Relation.ReflTransGen WorkStep c { c with traffic.service := s, stage := .ended } := by
  obtain ⟨hw, m, rest, hchannel, hschedule⟩ := exists_of_receive? h
  cases m with
  | schedule task deadline =>
    rw [hschedule task deadline rfl] at hs
    cases hs
  | stop =>
    have hexit : s = c.traffic.service.exit := by
      rw [receive?, hw, hchannel] at h
      exact (Option.some.inj h).symm
    subst hexit
    exact .head (.leave hstage hr hw hchannel) (.head (.uncount rfl) (.head (.close rfl)
      (.single (.terminate rfl))))

end Links

end Shutdown

end TimeoutService

end Admission
