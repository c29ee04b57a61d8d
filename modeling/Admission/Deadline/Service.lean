import Admission.Deadline.Queue
import Admission.Error
import Admission.Text.Debug
import Admission.Time

/-!
# Timeout services

A timeout service has a worker that fires tasks when their deadline has come. Callers send it tasks
over a channel. The worker goes round: it reads its clock and takes out the tasks that are due,
fires them one by one, and then takes one message from the channel, or waits for one until the next
deadline. A message to stop ends it, and the tasks that are left are dropped.

All is given step by step, since the steps of callers may fall between those of the worker.

## Main definitions

* `TimeoutConfig`: the settings, and which of them are valid
* `WorkerHandle`, `WorkerHandle.stop`: who can wait for the worker to end
* `TimeoutService τ`: the channel, the counter of pending tasks, and where the worker stands
* `TimeoutService.deadlineOf`, `TimeoutService.announce`, `TimeoutService.send`: the steps of a
  caller who schedules a task, after a look at `accepting`
* `TimeoutService.wake`, `TimeoutService.fireNext?`, `TimeoutService.finishFire`,
  `TimeoutService.receive?`: the steps of the worker
* `TimeoutService.refuse`: the first step of a caller who stops the service
-/

namespace Admission

/-- The settings of a timeout service. -/
structure TimeoutConfig where
  name : String := "precipice-timeout"
  /-- The longest timeout in milliseconds; longer ones are cut to it. -/
  maxTimeoutMillis : UInt64 := 86400000
deriving DecidableEq, Repr

namespace TimeoutConfig

/-- The longest timeout. -/
def maxTimeout (c : TimeoutConfig) : Duration := .ofMillis c.maxTimeoutMillis

/-- Checks the settings: there is a name, and timeouts have a length. -/
def validate (c : TimeoutConfig) : Except Error Unit := do
  require (c.name ≠ "") .emptyServiceName
  require (c.maxTimeoutMillis ≠ 0) .zeroMaxTimeout

/-- Why no thread can be started for the worker, if so: the name of a thread must be free of the
null character. -/
def threadFault? (c : TimeoutConfig) : Option String :=
  (c.name.toUTF8.toList.findIdx? (· == 0)).map fun i =>
    "thread name may not contain interior null bytes: NulError(" ++ toString i ++ ", "
      ++ DebugText.bytes c.name ++ ")"

end TimeoutConfig

/-- What callers send to the worker. -/
inductive Message (τ : Type) where
  /-- A task to be fired at a deadline. -/
  | schedule (task : τ) (deadline : UInt64)
  | stop
deriving DecidableEq, Repr

/-- Where the worker stands. -/
inductive Worker (τ : Type) where
  | waking
  /-- It fires the tasks that were due, the first of them next. When none is left it takes a
  message, or waits for one. -/
  | firing (due : List τ)
  | exited
deriving DecidableEq, Repr

/-- Who has the handle that a call to stop waits with for the worker. It is taken behind a lock. -/
inductive WorkerHandle where
  | free
  /-- A call on another thread waits for the worker, and keeps the lock until that has ended. -/
  | awaited
  | taken
  /-- The worker waits for the lock of a call that waits for the worker. -/
  | deadlocked
deriving DecidableEq, Repr

/-- What a call to stop makes of the handle. It is on the worker's own thread or not, and the worker
may be busy firing a task. -/
def WorkerHandle.stop (own busy : Bool) : WorkerHandle → WorkerHandle
  | free => if busy && !own then awaited else taken
  | awaited => if own then deadlocked else awaited
  | taken => taken
  | deadlocked => deadlocked

/-- A timeout service with its worker. -/
structure TimeoutService (τ : Type) where
  name : String
  /-- The longest timeout in nanoseconds. -/
  maxTimeout : UInt64
  accepting : Bool := true
  /-- The tasks counted by callers and not yet fired or dropped. -/
  pending : Nat := 0
  channel : List (Message τ) := []
  queue : DeadlineQueue τ := .empty
  worker : Worker τ := .waking
deriving DecidableEq, Repr

namespace TimeoutService

variable {τ : Type}

/-- A service with valid settings whose worker has just started. -/
def make (c : TimeoutConfig) : Except Error (TimeoutService τ) := do
  c.validate
  return { name := c.name, maxTimeout := c.maxTimeout.toWord }

/-! ## The steps of a caller -/

/-- The deadline of a task that is scheduled at `now`. -/
def deadlineOf (s : TimeoutService τ) (timeout : Duration) (now : UInt64) : UInt64 :=
  addSat now (if s.maxTimeout < timeout.toWord then s.maxTimeout else timeout.toWord)

/-- Counts a task as pending. -/
def announce (s : TimeoutService τ) : TimeoutService τ := { s with pending := s.pending + 1 }

/-- Takes back the count of a task. -/
def retract (s : TimeoutService τ) : TimeoutService τ := { s with pending := s.pending - 1 }

/-- Whether the worker has ended. -/
def isExited (s : TimeoutService τ) : Bool :=
  match s.worker with
  | .exited => true
  | _ => false

/-- Sends a message, unless nobody is left to receive it. -/
def send (s : TimeoutService τ) (m : Message τ) : Option (TimeoutService τ) :=
  if s.isExited then none else some { s with channel := s.channel ++ [m] }

/-- Schedules a task, all steps without a break. -/
def schedule (s : TimeoutService τ) (task : τ) (timeout : Duration) (now : UInt64) :
    Except Error (TimeoutService τ) :=
  if s.accepting then
    match s.announce.send (.schedule task (s.deadlineOf timeout now)) with
    | some s => .ok s
    | none => .error .timeoutServiceStopped
  else .error .timeoutServiceStopped

/-- Accepts no more tasks. -/
def refuse (s : TimeoutService τ) : TimeoutService τ := { s with accepting := false }

/-! ## The steps of the worker -/

/-- Takes out the tasks that are due at the clock's reading. -/
def wake (s : TimeoutService τ) (now : UInt64) : TimeoutService τ :=
  let (queue, due) := s.queue.expire now
  { s with queue, worker := .firing due }

/-- The task to be fired next, if any is due. -/
def fireNext? (s : TimeoutService τ) : Option (τ × TimeoutService τ) :=
  match s.worker with
  | .firing (task :: rest) => some (task, { s with worker := .firing rest })
  | _ => none

/-- A task has been fired and is pending no more. -/
def finishFire (s : TimeoutService τ) : TimeoutService τ := s.retract

/-- The worker ends: what it holds is dropped, and nothing more is accepted. -/
def exit (s : TimeoutService τ) : TimeoutService τ :=
  { s with
    accepting := false
    pending := s.pending - s.queue.size
    queue := .empty
    channel := []
    worker := .exited }

/-- Takes the oldest message, once all tasks that were due have been fired. -/
def receive? (s : TimeoutService τ) : Option (TimeoutService τ) :=
  match s.worker, s.channel with
  | .firing [], .schedule task deadline :: rest =>
    some { s with channel := rest, queue := s.queue.push task deadline, worker := .waking }
  | .firing [], .stop :: _ => some s.exit
  | _, _ => none

/-- Whether the next deadline has come at `now`, so that a worker that waits goes on. -/
def isDue (s : TimeoutService τ) (now : UInt64) : Bool :=
  match s.queue.nextDeadline with
  | some deadline => deadline ≤ now
  | none => false

/-- The worker ends in the middle of its round, and nobody counts what it held. -/
def crash (s : TimeoutService τ) : TimeoutService τ :=
  { s with accepting := false, queue := .empty, channel := [], worker := .exited }

end TimeoutService

end Admission
