import Admission.Deadline.Service
import Admission.Scenario.Gates
import Admission.Scenario.Latencies
import Admission.Scenario.Queues

/-!
# Commands and scripts

The commands of a scenario. Some of them register callbacks, and a callback carries a script: the
actions that it will take, each of them a command under its own name.

## Main definitions

* `BenchCommand O`: the commands that never call back, and their `run`
* `Command O`, `Script O`, `TaskPlan O`: all commands, the scripts of callbacks, and the tasks that
  can be timed
* `Command.weight`, `Script.weight`: a bound on the work that a command brings about
-/

namespace Admission.Scenario

/-- The commands that never call back. -/
inductive BenchCommand (O : Type) where
  | clock (c : ClockCommand)
  | counts (c : CountCommand O)
  /-- A command on counts that are kept for ever. -/
  | totals (c : CountCommand O)
  | rolling (c : RollingCommand O)
  | window (c : WindowCommand)
  | recorder (c : RecorderCommand)
  | histogram (c : HistogramCommand)
  | accumulator (c : AccumulatorCommand O)
  /-- A command on latencies since the previous look. -/
  | intervalLatency (c : IntervalLatencyCommand O)
  | rollingLatency (c : RollingLatencyCommand O)
  | gate (c : GateCommand O)
  | health (c : HealthCommand)
  | rail (c : RailCommand O)
  | queue (c : QueueCommand)

/-- Carries out a command that never calls back. -/
def BenchCommand.run {O : Type} [Outcome O] : BenchCommand O → BenchM O (Answer O)
  | clock c => c.run
  | counts c => c.runCounts
  | totals c => c.runTotals
  | rolling c => c.run
  | window c => c.run
  | recorder c => c.run
  | histogram c => c.run
  | accumulator c => c.run
  | intervalLatency c => c.run
  | rollingLatency c => c.run
  | gate c => c.run
  | health c => c.run
  | rail c => c.run
  | queue c => c.run

/-- Questions to a promise. -/
inductive PromiseQuery where
  | status
  | result
  | intoResult
  | permits
  | debug

mutual

/-- A command of a scenario. -/
inductive Command (O : Type) where
  | bench (c : BenchCommand O)
  /-- Breaks off everything up to the nearest place where a panic is contained. -/
  | panic (message : String)
  | promise (id : String)
  /-- Makes a promise with permits whose return is noted and followed by a script. -/
  | promiseWithPermits (id clock : String) (units start : UInt64) (script : Script O)
  | settle (id : String) (c : Completion O)
  | ask (id : String) (q : PromiseQuery)
  | listen (id tag : String) (script : Script O)
  /-- Registers another promise that the completion is to be forwarded to. -/
  | link (id target : String)
  | future (id as : String)
  | poll (id waker : String) (script : Script O)
  /-- Carries out a command while somebody waits for a promise, and cancels the promise if it is
  still pending then. -/
  | waitWhile (id : String) (body : Command O)
  | completable (id : String)
  /-- Makes a completable with permits whose return is noted and followed by a script. -/
  | completableWithPermits (id clock : String) (units start : UInt64) (script : Script O)
  | complete (id : String) (c : Completion O)
  /-- How far the action of a completable is. -/
  | completableStatus (id : String)
  /-- Makes a promise for permits of a guard rail, which are asked for first or held already. -/
  | railPromise (rail : String) (units now : UInt64) (as : String) (held : Bool)
  /-- Makes a completable for permits of a guard rail, which are asked for first or held already. -/
  | railCompletable (rail : String) (units now : UInt64) (as : String) (held : Bool)
  | deadlines (id : String)
  | push (id : String) (task : TaskPlan O) (deadline : UInt64)
  | nextDeadline (id : String)
  | deadlinesSize (id : String)
  | clearDeadlines (id : String)
  /-- Fires the tasks of a deadline queue that are due. -/
  | expire (id : String) (now : UInt64)
  | deadlinesDebug (id : String)
  /-- Starts a timeout service with a clock of its own. -/
  | service (id : String) (config : TimeoutConfig) (start : UInt64)
  /-- Schedules a task and lets the service fire everything that is due. -/
  | schedule (id : String) (task : TaskPlan O) (timeout : Duration) (now : Option UInt64)
  /-- Sets the clock of a service and lets it fire everything that is due. -/
  | setServiceClock (id : String) (now : UInt64)
  | serviceParts (id : String)
  | serviceDebug (id : String)
  | stopService (id : String)
  /-- Breaks the clock of a service, and wakes the service with a task. -/
  | killService (id : String) (task : TaskPlan O) (timeout : Duration)

/-- The actions of a callback, each under its name. -/
inductive Script (O : Type) where
  | done
  | act (name : String) (command : Command O) (rest : Script O)

/-- A task that can be timed. -/
inductive TaskPlan (O : Type) where
  | promise (id : String)
  | completable (id : String)
  /-- A task that is noted and followed by a script. -/
  | tagged (tag : String) (script : Script O)

end

/-! ## Weights

The weight of a command bounds the number of steps that it can bring about, in callbacks that it
registers included. -/

mutual

/-- The weight of a command. -/
def Command.weight {O : Type} : Command O → Nat
  | .bench _ => 1
  | .panic _ => 1
  | .promise _ => 3
  | .promiseWithPermits _ _ _ _ s => s.weight + 5
  | .settle _ _ => 2
  | .ask _ _ => 1
  | .listen _ _ s => s.weight + 4
  | .link _ _ => 3
  | .future _ _ => 1
  | .poll _ _ s => s.weight + 3
  | .waitWhile _ c => c.weight + 3
  | .completable _ => 1
  | .completableWithPermits _ _ _ _ s => s.weight + 3
  | .complete _ _ => 2
  | .completableStatus _ => 1
  | .railPromise .. => 4
  | .railCompletable .. => 2
  | .deadlines _ => 1
  | .push _ t _ => t.weight + 1
  | .nextDeadline _ => 1
  | .deadlinesSize _ => 1
  | .clearDeadlines _ => 1
  | .expire _ _ => 2
  | .deadlinesDebug _ => 1
  | .service .. => 4
  | .schedule _ t _ _ => t.weight + 14
  | .setServiceClock _ _ => 9
  | .serviceParts _ => 1
  | .serviceDebug _ => 1
  | .stopService _ => 4
  | .killService .. => 1

/-- The weight of a script. -/
def Script.weight {O : Type} : Script O → Nat
  | .done => 0
  | .act _ c rest => c.weight + rest.weight + 2

/-- The weight of a task. -/
def TaskPlan.weight {O : Type} : TaskPlan O → Nat
  | .promise _ => 1
  | .completable _ => 1
  | .tagged _ s => s.weight + 2

end

end Admission.Scenario
