import Admission.Handoff.Ring

/-!
# Waiting for an item

A consumer that finds its ring empty may park until an item is published or somebody interrupts it.
Parking uses a token: unparking leaves one, of which there is at most one, and parking waits for it
and takes it.

Offering, interrupting and the consumer's wait are given as single steps, since the steps of the
three parties may fall in any order.

## Main definitions

* `Exchange α`: a ring with the flags and the token of the wait
* `Exchange.publish`, `Exchange.wakeConsumer`: the steps of an offer
* `Exchange.raise`, `Exchange.unpark`: the steps of an interrupt
* `Waiting`, `Exchange.advance`: where a waiting consumer stands, and its next step
* `Exchange.blockingPoll`: the consumer's steps until it has an answer or is parked
-/

namespace Admission

/-- A ring whose consumer can wait. -/
structure Exchange (α : Type) where
  ring : Handoff α
  /-- Whether the consumer has announced that it is going to park. -/
  consumerWaiting : Bool := false
  interrupted : Bool := false
  /-- Whether a token is left for the consumer. -/
  token : Bool := false

/-- How a wait for an item ends. -/
inductive Polled (α : Type) where
  | item (a : α)
  /-- With an interrupt, which is thereby used up. -/
  | interrupted
deriving DecidableEq, Repr

/-- Where a waiting consumer stands. -/
inductive Waiting (α : Type) where
  /-- It is about to look for an item. -/
  | polling
  /-- It found none and is about to take a pending interrupt. -/
  | checking
  /-- It is about to announce that it will park. -/
  | announcing
  /-- It has announced that and is about to look for an item once more. -/
  | polledAgain
  /-- It is about to look for an interrupt once more. -/
  | checkingAgain
  /-- It is about to park, or is parked as long as no token is left. -/
  | parked
  /-- It is about to withdraw its announcement, and then to answer or to start over. -/
  | withdrawing (found : Option α)
  | done (answer : Polled α)
deriving DecidableEq, Repr

namespace Exchange

variable {α : Type}

/-- An exchange for at least `capacity` items. -/
def empty (capacity : Nat) : Exchange α := { ring := .empty capacity }

/-! ## The steps of the others -/

/-- Publishes an item, or hands it back when the ring is full. -/
def publish (x : Exchange α) (item : α) : Except α (Exchange α) :=
  (x.ring.offer item).map fun ring => { x with ring }

/-- Leaves a token. -/
def unpark (x : Exchange α) : Exchange α := { x with token := true }

/-- Leaves a token if the consumer has announced that it is going to park. -/
def wakeConsumer (x : Exchange α) : Exchange α := if x.consumerWaiting then x.unpark else x

/-- Offers an item, both steps without a break. -/
def offer (x : Exchange α) (item : α) : Except α (Exchange α) := (x.publish item).map wakeConsumer

/-- Makes an interrupt pending. -/
def raise (x : Exchange α) : Exchange α := { x with interrupted := true }

/-- Interrupts the consumer, both steps without a break. -/
def interrupt (x : Exchange α) : Exchange α := x.raise.unpark

/-! ## The steps of the consumer -/

/-- Takes the oldest item without waiting. -/
def poll (x : Exchange α) : Option (α × Exchange α) :=
  x.ring.poll.map fun (item, ring) => (item, { x with ring })

/-- The next step of a waiting consumer. There is none while it is parked and no token is left, and
none once it has its answer. -/
def advance (x : Exchange α) : Waiting α → Option (Exchange α × Waiting α)
  | .polling =>
    match x.poll with
    | some (item, x) => some (x, .done (.item item))
    | none => some (x, .checking)
  | .checking =>
    if x.interrupted then some ({ x with interrupted := false }, .done .interrupted)
    else some (x, .announcing)
  | .announcing => some ({ x with consumerWaiting := true }, .polledAgain)
  | .polledAgain =>
    match x.poll with
    | some (item, x) => some (x, .withdrawing (some item))
    | none => some (x, .checkingAgain)
  | .checkingAgain => some (x, if x.interrupted then .withdrawing none else .parked)
  | .parked => if x.token then some ({ x with token := false }, .withdrawing none) else none
  | .withdrawing found =>
    let x := { x with consumerWaiting := false }
    match found with
    | some item => some (x, .done (.item item))
    | none => some (x, .polling)
  | .done _ => none

/-- Up to the given number of steps of a waiting consumer. -/
def run : Nat → Exchange α → Waiting α → Exchange α × Waiting α
  | 0, x, w => (x, w)
  | steps + 1, x, w =>
    match x.advance w with
    | some (x, w) => run steps x w
    | none => (x, w)

/-- The steps of a waiting consumer that nobody else disturbs, until it has its answer or is parked
without a token. Two rounds of seven steps suffice: the first may use up a token that is left, and
the second then ends. -/
def blockingPoll (x : Exchange α) (w : Waiting α) : Exchange α × Waiting α := run 16 x w

end Exchange

end Admission
