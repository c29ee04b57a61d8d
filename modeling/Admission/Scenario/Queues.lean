import Admission.Scenario.Metrics

/-!
# Commands on queues

## Main definitions

* `QueueCommand`: the commands on a queue from one producer to one consumer
* `QueueCommand.run`: what each of them does and answers
-/

namespace Admission.Scenario

variable {O : Type} [Outcome O]

/-- Commands on queues. -/
inductive QueueCommand where
  | create (id : String) (capacity : UInt64)
  | offer (id : String) (item : Int64)
  | poll (id : String)
  /-- Size, emptiness and capacity as both ends see them. -/
  | info (id : String)
  | interrupt (id : String)
  /-- The debug form of both ends and of an interrupter. -/
  | debug (id : String)
  /-- Waits for an item, while somebody else may offer one or interrupt the wait a little later. -/
  | blockingPoll (id : String) (offer : Option Int64) (interrupt : Bool)

/-- The place of a queue. -/
def findQueue (id : String) : BenchM O Nat :=
  find id fun | .queue i => some i | _ => none

/-- The queue under a name. -/
def fetchQueue (id : String) : BenchM O (Exchange Int64) := do
  fetch id (·.queues) (← findQueue id)

/-- Replaces the queue at a place. -/
def storeQueue (i : Nat) (x : Exchange Int64) : BenchM O Unit :=
  modify fun b => { b with queues := b.queues.setIfInBounds i x }

/-- The debug form of both ends and of an interrupter. -/
def queueText (ring : Handoff Int64) : String :=
  let fields := [("capacity", toString ring.capacity), ("len", toString ring.size)]
  " ".intercalate [DebugText.record "QueueProducer" fields, DebugText.record "QueueConsumer" fields,
    DebugText.hidden "Interrupter"]

/-- A wait for an item: the consumer goes as far as it can, then the others do their part, and the
consumer goes on. -/
def waitForItem (x : Exchange Int64) (offer : Option Int64) (interrupt : Bool) :
    Exchange Int64 × Answer O :=
  let (x, w) := x.blockingPoll .polling
  let x := match offer with
    | some item => (x.offer item).toOption.getD x
    | none => x
  let x := if interrupt then x.interrupt else x
  match x.blockingPoll w with
  | (x, .done (.item item)) => (x, .item item)
  | (x, .done .interrupted) => (x, .interrupted)
  | (x, _) => (x, .nothing)

/-- Carries out a command on a queue. -/
def QueueCommand.run : QueueCommand → BenchM O (Answer O)
  | create id capacity => do
    reserve capacity.toNat
    let i := (← get).queues.size
    modify fun b => { b with queues := b.queues.push (.empty capacity.toNat) }
    bind id (.queue i)
    return .nothing
  | offer id item => do
    let i ← findQueue id
    match (← fetch id (·.queues) i).offer item with
    | .ok x => storeQueue i x; return .offered
    | .error item => return .full item
  | poll id => do
    let i ← findQueue id
    match (← fetch id (·.queues) i).poll with
    | some (item, x) => storeQueue i x; return .item item
    | none => return .nothing
  | info id => do
    let r := (← fetchQueue id).ring
    return .tuple [.number r.size, .number r.size, .truth r.isEmpty, .truth r.isEmpty,
      .number r.capacity, .number r.capacity]
  | interrupt id => do
    let i ← findQueue id
    storeQueue i (← fetch id (·.queues) i).interrupt
    return .nothing
  | debug id => return .text (queueText (← fetchQueue id).ring)
  | blockingPoll id item interrupted => do
    let i ← findQueue id
    let (x, answer) := waitForItem (← fetch id (·.queues) i) item interrupted
    storeQueue i x
    return answer

end Admission.Scenario
