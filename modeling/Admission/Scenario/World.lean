import Admission.Deadline.TimeoutQueue
import Admission.Promise.Basic
import Admission.Scenario.Command

/-!
# The world of a scenario

The bench, together with the objects that call back: promises, completables, deadline queues and
timeout services. Callbacks are kept as data: a tag for the log, and a script.

## Main definitions

* `Listener`, `Waker`, `Release`, `Task`: the callbacks
* `Holder`: who holds permits
* `World O`: all objects, and the log
* `World.isStuck`: whether calls to stop a timeout service wait for each other
* `World.weight`: a bound on the steps that the callbacks still to be run can take
-/

namespace Admission.Scenario

/-- A listener of a promise. -/
structure Listener (O : Type) where
  tag : String
  script : Script O

/-- A waker. Wakers with one tag wake the same waiter. -/
structure Waker (O : Type) where
  tag : String
  script : Script O

/-- How permits are returned. -/
inductive Release (O : Type) where
  /-- To the guard rail at a place, at the time of its clock. -/
  | rail (i : Nat)
  /-- With a note that gives the reading of a clock, followed by a script. -/
  | scripted (id : String) (clock : Nat) (script : Script O)

/-- Who holds permits. -/
inductive Holder where
  | promise (i : Nat)
  | completable (i : Nat)
deriving DecidableEq, Repr

/-- A task that can be timed. -/
inductive Task (O : Type) where
  /-- The timeout of the promise at a place. -/
  | promise (i : Nat)
  /-- The timeout of the completable at a place. -/
  | completable (i : Nat)
  /-- A task that is noted and followed by a script. -/
  | tagged (tag : String) (script : Script O)
  /-- A task that does nothing. It is fired after all others that are due when it is sent. -/
  | probe

/-- A promise of a scenario. -/
abbrev ScenarioPromise (O : Type) := Promise O (Release O) (Waker O) (Listener O)

/-- A completable of a scenario. -/
abbrev ScenarioCompletable (O : Type) := Completable O (Release O)

/-- A timeout service with its name and its clock. -/
structure PlacedService (O : Type) where
  id : String
  service : TimeoutService (Task O)
  clock : Clock
  handle : WorkerHandle := .free

/-- All objects of a scenario. -/
structure World (O : Type) [Outcome O] where
  /-- The objects that never call back, and the names of all objects. -/
  bench : Bench O := {}
  promises : Array (ScenarioPromise O) := #[]
  completables : Array (ScenarioCompletable O) := #[]
  deadlines : Array (TimeoutQueue (Task O)) := #[]
  services : Array (PlacedService O) := #[]
  /-- What callbacks and the library have left, oldest first. -/
  log : List (Entry O) := []

namespace World

variable {O : Type} [Outcome O]

/-- Adds to the log. -/
def note (w : World O) (entries : List (Entry O)) : World O := { w with log := w.log ++ entries }

/-- Gives a name to an object. -/
def bind (w : World O) (id : String) (h : Handle) : World O := { w with bench := w.bench.bind id h }

/-- The promise under a name. -/
def findPromise (w : World O) (id : String) : Except Fault Nat :=
  w.bench.find id fun | .promise i => some i | _ => none

/-- The promise that a future under a name belongs to. -/
def findFuture (w : World O) (id : String) : Except Fault Nat :=
  w.bench.find id fun | .future i => some i | _ => none

/-- The completable under a name. -/
def findCompletable (w : World O) (id : String) : Except Fault Nat :=
  w.bench.find id fun | .completable i => some i | _ => none

/-- The deadline queue under a name. -/
def findDeadlines (w : World O) (id : String) : Except Fault Nat :=
  w.bench.find id fun | .deadlines i => some i | _ => none

/-- The timeout service under a name. -/
def findService (w : World O) (id : String) : Except Fault Nat :=
  w.bench.find id fun | .service i => some i | _ => none

/-- The guard rail under a name. -/
def findRail (w : World O) (id : String) : Except Fault Nat :=
  w.bench.find id fun | .rail i => some i | _ => none

/-- The clock under a name. -/
def findClock (w : World O) (id : String) : Except Fault Nat :=
  w.bench.find id fun | .clock i => some i | _ => none

/-- Makes a promise under a name. -/
def addPromise (w : World O) (id : String) (permits : Option (Permits (Release O))) : World O :=
  { w with promises := w.promises.push { permits } }.bind id (.promise w.promises.size)

/-- Makes a completable under a name. -/
def addCompletable (w : World O) (id : String) (permits : Option (Permits (Release O))) : World O :=
  { w with completables := w.completables.push { permits } }.bind id
    (.completable w.completables.size)

/-- Makes a deadline queue under a name. -/
def addDeadlines (w : World O) (id : String) : World O :=
  { w with deadlines := w.deadlines.push .empty }.bind id (.deadlines w.deadlines.size)

/-- Starts a timeout service under a name. -/
def addService (w : World O) (id : String) (service : TimeoutService (Task O)) (start : UInt64) :
    World O :=
  { w with services := w.services.push { id, service, clock := ⟨start⟩ } }.bind id
    (.service w.services.size)

/-- Changes the promise at a place. -/
def modifyPromise (w : World O) (i : Nat) (f : ScenarioPromise O → ScenarioPromise O) : World O :=
  { w with promises := w.promises.modify i f }

/-- Puts a promise in the place of another. -/
def storePromise (w : World O) (i : Nat) (p : ScenarioPromise O) : World O :=
  { w with promises := w.promises.setIfInBounds i p }

/-- Changes the deadline queue at a place. -/
def storeDeadlines (w : World O) (i : Nat) (q : TimeoutQueue (Task O)) : World O :=
  { w with deadlines := w.deadlines.setIfInBounds i q }

/-- Changes the timeout service at a place. -/
def storeService (w : World O) (i : Nat) (s : TimeoutService (Task O)) : World O :=
  { w with services := w.services.modify i fun p => { p with service := s } }

/-- Gives another clock to the timeout service at a place. -/
def setServiceClock (w : World O) (i : Nat) (c : Clock) : World O :=
  { w with services := w.services.modify i fun p => { p with clock := c } }

/-- Takes the handle of the timeout service at a place in a call to stop. -/
def takeHandle (w : World O) (i : Nat) (own busy : Bool) : World O :=
  { w with services := w.services.modify i fun p => { p with handle := p.handle.stop own busy } }

/-- Whether calls to stop a timeout service wait for each other, so that the scenario never goes
on. -/
def isStuck (w : World O) : Bool := w.services.any (·.handle == .deadlocked)

/-- The time at which permits are returned: the reading of the clock that goes with them. -/
def releaseTime (w : World O) : Release O → UInt64
  | .rail i => w.bench.railTime (w.bench.rails[i]?.bind (·.clock))
  | .scripted _ clock _ => w.bench.railTime (some clock)

/-- The completion of the promise at a place. -/
def result? (w : World O) (i : Nat) : Option (Completion O) := w.promises[i]?.bind (·.result)

/-- Completes the promise at a place, if it is pending. -/
def settlePromise (w : World O) (i : Nat) (c : Completion O) :
    Option (World O × Option (Permits (Release O))) :=
  match w.promises[i]? with
  | some p => (p.settle c).map fun q => (w.storePromise i q, p.permits)
  | none => none

/-- Completes the completable at a place, if it is pending. -/
def settleCompletable (w : World O) (i : Nat) (c : Completion O) :
    Option (World O × Option (Permits (Release O))) :=
  match w.completables[i]? with
  | some k =>
    (k.settle c).map fun l =>
      ({ w with completables := w.completables.setIfInBounds i l }, k.permits)
  | none => none

theorem settlePromise_eq_some {w v : World O} {i : Nat} {c : Completion O}
    {permits : Option (Permits (Release O))} (h : w.settlePromise i c = some (v, permits)) :
    ∃ p, w.promises[i]? = some p ∧ p.result = none ∧ permits = p.permits ∧
      v = w.storePromise i { p with result := some c } := by
  unfold settlePromise at h
  split at h
  · rename_i p hp
    simp only [Option.map_eq_some_iff, Prod.mk.injEq] at h
    obtain ⟨q, hq, rfl, rfl⟩ := h
    obtain ⟨hn, rfl⟩ := Promise.result_of_settle hq
    exact ⟨p, hp, hn, rfl, rfl⟩
  · cases h

theorem settleCompletable_eq_some {w v : World O} {i : Nat} {c : Completion O}
    {permits : Option (Permits (Release O))} (h : w.settleCompletable i c = some (v, permits)) :
    ∃ k, w.completables[i]? = some k ∧ k.isDone = false ∧ permits = k.permits ∧
      v = { w with
        completables := w.completables.setIfInBounds i { k with status := c.status } } := by
  unfold settleCompletable at h
  split at h
  · rename_i k hk
    simp only [Option.map_eq_some_iff, Prod.mk.injEq] at h
    obtain ⟨l, hl, rfl, rfl⟩ := h
    obtain ⟨hd, rfl⟩ := Completable.status_of_settle hl
    exact ⟨k, hk, hd, rfl, rfl⟩
  · cases h

/-- The task that a plan stands for. -/
def resolveTask (w : World O) : TaskPlan O → Except Fault (Task O)
  | .promise id => (w.findPromise id).map .promise
  | .completable id => (w.findCompletable id).map .completable
  | .tagged tag script => .ok (.tagged tag script)

end World

/-! ## Weights -/

/-- The steps of returning permits. -/
def Release.weight {O : Type} : Release O → Nat
  | rail _ => 1
  | scripted _ _ s => s.weight + 2

/-- The steps of waking. -/
def Waker.weight {O : Type} (k : Waker O) : Nat := k.script.weight + 2

/-- The steps of a listener. -/
def Listener.weight {O : Type} (l : Listener O) : Nat := l.script.weight + 2

/-- The steps of firing a task. -/
def Task.weight {O : Type} : Task O → Nat
  | promise _ => 1
  | completable _ => 1
  | tagged _ s => s.weight + 2
  | probe => 1

/-- The steps of returning permits, if there are any. -/
def permitsWeight {O : Type} : Option (Permits (Release O)) → Nat
  | some p => p.release.weight
  | none => 0

/-- The steps that a completion of the promise and its callbacks can still take. -/
def promiseWeight {O : Type} (p : ScenarioPromise O) : Nat :=
  (if p.isDone then 0 else permitsWeight p.permits + 2)
    + (p.wakers.map Waker.weight).sum
    + (p.listeners.map fun l => l.weight + 1).sum
    + 2 * p.links.length

/-- The steps that a completion of the completable can still take. -/
def completableWeight {O : Type} (k : ScenarioCompletable O) : Nat :=
  if k.isDone then 0 else permitsWeight k.permits

/-- The steps of firing the tasks of a queue. -/
def deadlinesWeight {O : Type} (q : TimeoutQueue (Task O)) : Nat :=
  (q.tasks.map Task.weight).sum

/-- The steps of firing the tasks that wait in a service. -/
def waitingWeight {O : Type} (q : DeadlineQueue (Task O)) : Nat :=
  (q.entries.map fun e => e.task.weight + 3).sum

/-- The steps of a worker's receiving a message. -/
def messageWeight {O : Type} : Message (Task O) → Nat
  | .schedule t _ => t.weight + 5
  | .stop => 1

/-- The steps of a worker from where it stands. -/
def workerWeight {O : Type} : Worker (Task O) → Nat
  | .waking => 1
  | .firing due => (due.map fun t => t.weight + 2).sum
  | .exited => 0

/-- The steps that a timeout service can still take. -/
def serviceWeight {O : Type} (s : TimeoutService (Task O)) : Nat :=
  (s.channel.map messageWeight).sum + waitingWeight s.queue + workerWeight s.worker

/-- The steps that the callbacks of a world can still take. -/
def World.weight {O : Type} [Outcome O] (w : World O) : Nat :=
  (w.promises.toList.map promiseWeight).sum
    + (w.completables.toList.map completableWeight).sum
    + (w.deadlines.toList.map deadlinesWeight).sum
    + (w.services.toList.map fun p => serviceWeight p.service).sum

end Admission.Scenario
