/-!
# Recorders

A recorder keeps two instances of an accumulator. Writers write into the active one. A reader
captures by making the other one active, waiting for the writers that were still inside, and then
reading and clearing the instance it retired.

Writers are counted by tickets. Each takes a start ticket from a counter whose sign tells the phase,
and gives an end ticket to the counter of that phase. A reader moves the start counter to the other
phase and waits until the end counter of the old phase has caught up with the start value it took.

Recording and capturing are given step by step, since the steps of writers may fall between those of
a reader; `record` and `capture` run all their steps without a break.

## Main definitions

* `Phaser`: the three ticket counters
* `Recorder`: two instances, which of them is active, and the tickets
* `Recorder.enter`, `Recorder.write`, `Recorder.exit`: the steps of a writer
* `Recorder.switch`, `Recorder.flip`, `Recorder.isDrained`, `Recorder.collect`: the steps of a
  reader
* `Recorder.record`, `Recorder.capture`: a writer, and a reader, undisturbed
-/

namespace Admission

/-- One of two instances. -/
inductive Half where
  | first
  | second
deriving DecidableEq, Repr

/-- The other instance. -/
def Half.other : Half → Half
  | first => second
  | second => first

@[simp] theorem Half.other_other (h : Half) : h.other.other = h := by
  cases h <;> rfl

theorem Half.ne_other (h : Half) : h ≠ h.other := by
  cases h <;> decide

/-- The ticket counters of a recorder. -/
structure Phaser where
  /-- The next start ticket; it is negative in odd phases. -/
  start : Int64 := 0
  evenEnd : Int64 := 0
  oddEnd : Int64 := Int64.minValue
deriving DecidableEq, Repr

namespace Phaser

/-- Takes a start ticket. -/
def enter (p : Phaser) : Phaser × Int64 := ({ p with start := p.start + 1 }, p.start)

/-- Gives the end ticket for a start ticket. -/
def exit (p : Phaser) (ticket : Int64) : Phaser :=
  if ticket < 0 then { p with oddEnd := p.oddEnd + 1 } else { p with evenEnd := p.evenEnd + 1 }

/-- Whether the phase that comes after a flip is even. -/
def nextIsEven (p : Phaser) : Bool := p.start < 0

/-- The first start ticket of a phase. -/
def firstTicket (even : Bool) : Int64 := if even then 0 else Int64.minValue

/-- Sets the end counter of a phase to its first ticket. -/
def resetEnd (p : Phaser) (even : Bool) : Phaser :=
  if even then { p with evenEnd := firstTicket true } else { p with oddEnd := firstTicket false }

/-- Moves the start counter to a phase and tells the start ticket it had reached. -/
def swapStart (p : Phaser) (even : Bool) : Phaser × Int64 :=
  ({ p with start := firstTicket even }, p.start)

/-- The end tickets of a phase. -/
def ended (p : Phaser) (even : Bool) : Int64 := if even then p.evenEnd else p.oddEnd

end Phaser

/-- Two instances of an accumulator, one of which is active. -/
structure Recorder (α : Type) where
  first : α
  second : α
  active : Half := .first
  phaser : Phaser := {}
deriving DecidableEq, Repr

namespace Recorder

variable {α β : Type}

/-- An instance. -/
def get (r : Recorder α) : Half → α
  | .first => r.first
  | .second => r.second

/-- Changes an instance. -/
def modify (r : Recorder α) (h : Half) (f : α → α) : Recorder α :=
  match h with
  | .first => { r with first := f r.first }
  | .second => { r with second := f r.second }

/-! ## The steps of a writer -/

/-- Takes a start ticket. -/
def enter (r : Recorder α) : Recorder α × Int64 :=
  let (p, ticket) := r.phaser.enter
  ({ r with phaser := p }, ticket)

/-- Writes into an instance, which the writer has found to be active. -/
def write (r : Recorder α) (h : Half) (f : α → α × β) : Recorder α × β :=
  (r.modify h fun a => (f a).1, (f (r.get h)).2)

/-- Gives the end ticket. -/
def exit (r : Recorder α) (ticket : Int64) : Recorder α :=
  { r with phaser := r.phaser.exit ticket }

/-- A writer whose steps nothing disturbs. -/
def record (r : Recorder α) (f : α → α × β) : Recorder α × β :=
  let (r, ticket) := r.enter
  let (r, answer) := r.write r.active f
  (r.exit ticket, answer)

/-! ## The steps of a reader -/

/-- Makes the other instance active and tells which one is retired. -/
def switch (r : Recorder α) : Recorder α × Half :=
  ({ r with active := r.active.other }, r.active)

/-- What a reader waits for: the end tickets of the old phase reach its last start ticket. -/
structure Flip where
  /-- Whether the old phase is the even one. -/
  even : Bool
  /-- The start ticket that the old phase had reached. -/
  target : Int64
deriving DecidableEq, Repr

/-- Resets the end counter of the next phase, the first half of a flip. -/
def prepareFlip (r : Recorder α) : Recorder α × Bool :=
  let even := r.phaser.nextIsEven
  ({ r with phaser := r.phaser.resetEnd even }, even)

/-- Moves the writers to the next phase, the second half of a flip. -/
def completeFlip (r : Recorder α) (even : Bool) : Recorder α × Flip :=
  let (p, target) := r.phaser.swapStart even
  ({ r with phaser := p }, { even := !even, target })

/-- Moves the writers to the next phase. -/
def flip (r : Recorder α) : Recorder α × Flip :=
  let (r, even) := r.prepareFlip
  r.completeFlip even

/-- Whether every writer of the old phase has left. -/
def isDrained (r : Recorder α) (f : Flip) : Bool := r.phaser.ended f.even == f.target

/-- Reads the retired instance and clears it. -/
def collect (r : Recorder α) (retired : Half) (read : α → β) (clear : α → α) : Recorder α × β :=
  (r.modify retired clear, read (r.get retired))

/-- A reader whose steps nothing disturbs. -/
def capture (r : Recorder α) (read : α → β) (clear : α → α) : Recorder α × β :=
  let (r, retired) := r.switch
  let (r, _) := r.flip
  r.collect retired read clear

/-- A capture that starts while a writer is inside: the writer writes into the instance it found
active, and the reader waits for it. -/
def captureDuring (r : Recorder α) (f : α → α × β) (read : α → β) (clear : α → α) :
    Recorder α × β :=
  let (r, ticket) := r.enter
  let found := r.active
  let (r, retired) := r.switch
  let (r, _) := r.flip
  let (r, _) := r.write found f
  let r := r.exit ticket
  r.collect retired read clear

/-! ## Small facts -/

variable {r : Recorder α} {h k : Half} {f : α → α}

@[simp] theorem phaser_modify : (r.modify h f).phaser = r.phaser := by
  cases h <;> rfl

@[simp] theorem active_modify : (r.modify h f).active = r.active := by
  cases h <;> rfl

@[simp] theorem get_modify_self : (r.modify h f).get h = f (r.get h) := by
  cases h <;> rfl

theorem get_modify_of_ne (hne : k ≠ h) : (r.modify h f).get k = r.get k := by
  cases h <;> cases k <;> first | rfl | exact absurd rfl hne

end Recorder

end Admission
