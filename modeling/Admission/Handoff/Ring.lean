import Admission.Word

/-!
# Handoff rings

A handoff ring passes items from one producer to one consumer. Each side owns a cursor: the
producer's tail tells where the next item goes, the consumer's head where the oldest one is. Cursors
go around the end of the range of words.

## Main definitions

* `Handoff α`: a ring with its two cursors
* `Handoff.offer`, `Handoff.poll`: the ends of the producer and of the consumer
* `Handoff.toList`: the items held, oldest first
-/

namespace Admission

/-- A ring of items between two cursors. -/
structure Handoff (α : Type) where
  /-- The number of places, a power of two. -/
  capacity : Nat
  slots : Vector (Option α) capacity
  head : UInt64
  tail : UInt64
  capacity_pos : 0 < capacity

namespace Handoff

variable {α : Type}

/-- An empty ring for at least `wanted` items, whose cursors both start at `cursor`. -/
def emptyAt (wanted : Nat) (cursor : UInt64) : Handoff α where
  capacity := ceilPow2 wanted
  slots := Vector.replicate _ none
  head := cursor
  tail := cursor
  capacity_pos := ceilPow2_pos _

/-- An empty ring for at least `wanted` items. -/
def empty (wanted : Nat) : Handoff α := emptyAt wanted 0

/-- The place of a cursor. -/
def position (r : Handoff α) (cursor : UInt64) : Fin r.capacity :=
  ⟨cursor.toNat % r.capacity, Nat.mod_lt _ r.capacity_pos⟩

/-- The number of items held. -/
def size (r : Handoff α) : Nat := (r.tail - r.head).toNat

/-- Whether no item is held. -/
def isEmpty (r : Handoff α) : Bool := r.size == 0

/-- Adds an item, or hands it back when the ring is full. -/
def offer (r : Handoff α) (item : α) : Except α (Handoff α) :=
  if r.capacity ≤ r.size then .error item
  else
    .ok { r with
      slots := r.slots.set (r.position r.tail) (some item) (r.position r.tail).isLt
      tail := r.tail + 1 }

/-- Takes the oldest item. -/
def poll (r : Handoff α) : Option (α × Handoff α) :=
  if r.head = r.tail then none
  else
    match r.slots[(r.position r.head).val] with
    | some item => some (item, { r with head := r.head + 1 })
    | none => none

/-- The items held, oldest first. -/
def toList (r : Handoff α) : List α :=
  (List.range r.size).filterMap fun i => r.slots[(r.position (r.head + UInt64.ofNat i)).val]

end Handoff

end Admission
