import Admission.Handoff.Parking
import Admission.Proofs.Handoff.Contents
import Mathlib.Logic.Relation
import Mathlib.Tactic.SplitIfs

/-!
# No wake-up is lost

The producer of an exchange, its consumer and those who interrupt it share the cursors of the ring,
two flags and a token, and their steps fall in any order. Each step reads or writes one of these.
The producer stores the tail, then reads whether the consumer has announced that it parks, and then
leaves a token. An interrupter sets its flag, and then leaves a token. The consumer announces that
it parks, then looks for an item and for an interrupt once more, and then waits for a token.

What the consumer misses when it looks once more has been published after it announced itself, so
whoever published it finds the announcement, or leaves a token anyway. A token that is left over
from an earlier item does no harm: it only makes the consumer look again.

## Main definitions

* `Offering`, `Polling`: where the producer and the consumer stand
* `Handshake`: an exchange with its producer, its consumer and its interrupters
* `OfferStep`, `InterruptStep`, `PollStep`, `Handshake.Step`: their steps
* `Handshake.Blocked`: the consumer is parked and there is no token
* `Handshake.Sound`: what holds between any two steps

## Main results

* `steps_offer`, `steps_interrupt`, `steps_run`: an offer, an interrupt and a wait without a break
* `Sound.exists_pollStep_iff`: the consumer can go on unless it is blocked
* `Sound.step`, `Sound.steps`: what holds is kept by each step, and by any steps
* `nothing_missed_while_blocked`: a consumer that is blocked has missed nothing
-/

namespace Admission

/-! ## Ends of a ring -/

namespace Handoff

variable {α : Type} {r : Handoff α} {items : List α}

/-- Stores an item at a place. -/
def store (r : Handoff α) (i : Fin r.capacity) (item : α) : Handoff α :=
  { r with slots := r.slots.set i (some item) i.isLt }

/-- Stores an item at the tail, and moves the tail on. -/
def put (r : Handoff α) (item : α) : Handoff α :=
  { r.store (r.position r.tail) item with tail := r.tail + 1 }

/-- Moves the head on. -/
def skip (r : Handoff α) : Handoff α := { r with head := r.head + 1 }

theorem offer_eq_put (h : r.size < r.capacity) (a : α) : r.offer a = .ok (r.put a) := by
  rw [offer, if_neg (Nat.not_le.mpr h)]
  rfl

theorem poll_eq_some_iff {a : α} {s : Handoff α} :
    r.poll = some (a, s) ↔ r.head ≠ r.tail ∧ r.slotAt r.head = some a ∧ s = r.skip := by
  rw [poll, slotAt, skip]
  split_ifs with heq
  · simp [heq]
  · split
    · rename_i b hb
      rw [hb]
      simp [heq, eq_comm]
    · rename_i hnone
      rw [hnone]
      simp

theorem Holds.put (h : r.Holds items) (hlt : items.length < r.capacity) (a : α) :
    (r.put a).Holds (items ++ [a]) := by
  obtain ⟨s, hs, -, hholds⟩ := h.offer_of_lt hlt a
  rw [offer_eq_put (by rwa [h.size_eq])] at hs
  cases hs
  exact hholds

/-- The oldest item stands at the head. -/
theorem Holds.slotAt_head {a : α} (h : r.Holds (a :: items)) :
    r.head ≠ r.tail ∧ r.slotAt r.head = some a ∧ r.skip.Holds items := by
  obtain ⟨s, hs, -, hholds⟩ := h.poll_cons
  obtain ⟨hne, hslot, rfl⟩ := poll_eq_some_iff.mp hs
  exact ⟨hne, hslot, hholds⟩

theorem Holds.of_poll_eq_none (h : r.Holds items) (hpoll : r.poll = none) : r.head = r.tail := by
  cases items with
  | nil => exact h.head_eq_tail_iff.mpr rfl
  | cons a rest =>
    obtain ⟨s, hs, -⟩ := h.poll_cons
    rw [hpoll] at hs
    cases hs

theorem Holds.of_poll_eq_some {a : α} {s : Handoff α} (h : r.Holds items)
    (hpoll : r.poll = some (a, s)) :
    ∃ rest, items = a :: rest ∧ s.Holds rest := by
  cases items with
  | nil =>
    rw [h.poll_nil] at hpoll
    cases hpoll
  | cons b rest =>
    obtain ⟨t, ht, -, hholds⟩ := h.poll_cons
    rw [ht] at hpoll
    cases hpoll
    exact ⟨rest, rfl, hholds⟩

end Handoff

namespace Exchange

variable {α : Type}

/-- Apart from its looks for an item, a consumer that waits leaves the ring alone. -/
theorem ring_advance {x y : Exchange α} {w v : Waiting α} (hfirst : w ≠ .polling)
    (hagain : w ≠ .polledAgain)
    (h : x.advance w = some (y, v)) : y.ring = x.ring := by
  cases w with
  | polling => exact absurd rfl hfirst
  | polledAgain => exact absurd rfl hagain
  | checking =>
    rw [advance] at h
    split_ifs at h <;> cases h <;> rfl
  | announcing => cases h; rfl
  | checkingAgain => cases h; rfl
  | parked =>
    rw [advance] at h
    split_ifs at h
    cases h
    rfl
  | withdrawing found => cases found <;> cases h <;> rfl
  | done answer => cases h

end Exchange

/-! ## The three parties -/

variable {α : Type}

/-- Where the producer stands. -/
inductive Offering (α : Type) where
  | idle
  /-- It has found a place for an item and is about to publish it. -/
  | storing (item : α)
  /-- It has published an item and is about to look whether the consumer waits. -/
  | published
  /-- It has found that the consumer waits and is about to leave a token. -/
  | waking
deriving DecidableEq, Repr

/-- Where the consumer stands. -/
inductive Polling (α : Type) where
  | idle
  /-- It is about to do this step of a wait. -/
  | waiting (w : Waiting α)
  /-- It has seen the oldest item, and is about to move the head. -/
  | taking (item : α) (announced : Bool)
deriving DecidableEq, Repr

/-- Where the consumer goes on that has taken an item. -/
def Waiting.ofItem (announced : Bool) (item : α) : Waiting α :=
  if announced then .withdrawing (some item) else .done (.item item)

/-- The consumer has announced that it is going to park, and has not withdrawn that. -/
def Polling.isAnnounced : Polling α → Bool
  | .idle => false
  | .waiting w => match w with
    | .polledAgain | .checkingAgain | .parked | .withdrawing _ => true
    | _ => false
  | .taking _ announced => announced

/-- An exchange with those who use it. -/
structure Handshake (α : Type) where
  exchange : Exchange α
  producer : Offering α := .idle
  consumer : Polling α := .idle
  /-- How many interrupters have made an interrupt pending and have yet to leave a token. -/
  raised : Nat := 0

namespace Handshake

/-- An exchange for at least `wanted` items, whose cursors both start at `cursor` and that nobody
uses yet. -/
def start (wanted : Nat) (cursor : UInt64) : Handshake α :=
  { exchange := { ring := .emptyAt wanted cursor } }

/-- A step of the producer. -/
inductive OfferStep : Handshake α → Handshake α → Prop where
  /-- The item is handed back. -/
  | full {c : Handshake α} (hp : c.producer = .idle)
      (h : c.exchange.ring.capacity ≤ c.exchange.ring.size) : OfferStep c c
  | check {c : Handshake α} (item : α) (hp : c.producer = .idle)
      (h : c.exchange.ring.size < c.exchange.ring.capacity) :
        OfferStep c { c with producer := .storing item }
  /-- It writes the place and then the tail. Nobody else looks at the place before the tail has
  moved. -/
  | store {c : Handshake α} {item : α} (hp : c.producer = .storing item) :
      OfferStep c { c with exchange.ring := c.exchange.ring.put item, producer := .published }
  | look {c : Handshake α} (hp : c.producer = .published) :
      OfferStep c { c with producer := if c.exchange.consumerWaiting then .waking else .idle }
  | wake {c : Handshake α} (hp : c.producer = .waking) :
      OfferStep c { c with exchange := c.exchange.unpark, producer := .idle }

/-- A step of somebody who interrupts. -/
inductive InterruptStep : Handshake α → Handshake α → Prop where
  | raise {c : Handshake α} :
      InterruptStep c { c with exchange := c.exchange.raise, raised := c.raised + 1 }
  | unpark {c : Handshake α} {n : Nat} (h : c.raised = n + 1) :
      InterruptStep c { c with exchange := c.exchange.unpark, raised := n }

/-- Where the consumer looks for an item, and where it goes on without one. -/
inductive Looks : Polling α → Polling α → Prop where
  /-- It does not wait. -/
  | once : Looks .idle .idle
  | first : Looks (.waiting .polling) (.waiting .checking)
  | again : Looks (.waiting .polledAgain) (.waiting .checkingAgain)

/-- A step of the consumer. -/
inductive PollStep : Handshake α → Handshake α → Prop where
  | call {c : Handshake α} (hc : c.consumer = .idle) :
      PollStep c { c with consumer := .waiting .polling }
  | answer {c : Handshake α} {p : Polled α} (hc : c.consumer = .waiting (.done p)) :
      PollStep c { c with consumer := .idle }
  | miss {c : Handshake α} {q : Polling α} (hl : Looks c.consumer q)
      (h : c.exchange.ring.head = c.exchange.ring.tail) : PollStep c { c with consumer := q }
  /-- It reads the tail and then the place. Nobody else writes there before the head has moved. -/
  | see {c : Handshake α} {q : Polling α} {a : α} (hl : Looks c.consumer q)
      (h : c.exchange.ring.head ≠ c.exchange.ring.tail)
      (ha : c.exchange.ring.slotAt c.exchange.ring.head = some a) :
      PollStep c { c with consumer := .taking a c.consumer.isAnnounced }
  | take {c : Handshake α} {a : α} {announced : Bool} (hc : c.consumer = .taking a announced) :
      PollStep c { c with
        exchange.ring := c.exchange.ring.skip, consumer := .waiting (.ofItem announced a) }
  /-- All other steps read or write once. -/
  | advance {c : Handshake α} {w v : Waiting α} {x : Exchange α} (hc : c.consumer = .waiting w)
      (hfirst : w ≠ .polling) (hagain : w ≠ .polledAgain) (h : c.exchange.advance w = some (x, v)) :
      PollStep c { c with exchange := x, consumer := .waiting v }

/-- A step of any of them. -/
inductive Step : Handshake α → Handshake α → Prop where
  | offer {c d : Handshake α} (h : OfferStep c d) : Step c d
  | interrupt {c d : Handshake α} (h : InterruptStep c d) : Step c d
  | poll {c d : Handshake α} (h : PollStep c d) : Step c d

/-! ## Steps without a break -/

section Links

variable {c : Handshake α} {x : Exchange α}

/-- **An offer**, if nothing comes between its steps. -/
theorem steps_offer (hp : c.producer = .idle) {a : α} (h : c.exchange.offer a = .ok x) :
    Relation.ReflTransGen OfferStep c { c with exchange := x } := by
  by_cases hfull : c.exchange.ring.capacity ≤ c.exchange.ring.size
  · simp [Exchange.offer, Exchange.publish, Handoff.offer, hfull, Except.map] at h
  have hroom := Nat.lt_of_not_le hfull
  let stored : Exchange α := { c.exchange with ring := c.exchange.ring.put a }
  have hx : x = stored.wakeConsumer := by
    rw [Exchange.offer, Exchange.publish, Handoff.offer_eq_put hroom] at h
    exact (Except.ok.inj h).symm
  have hpublish :
      Relation.ReflTransGen OfferStep c { c with exchange := stored, producer := .published } :=
    .head (.check a hp hroom) (.single (.store rfl))
  have hlook : OfferStep { c with exchange := stored, producer := .published }
      { c with exchange := stored, producer := if stored.consumerWaiting then .waking
        else .idle } := .look rfl
  rw [hx, Exchange.wakeConsumer]
  split_ifs at hlook ⊢ with hwaits
  · exact (hpublish.tail hlook).tail (hp ▸ .wake rfl)
  · exact hp ▸ hpublish.tail hlook

/-- **An interrupt**, if nothing comes between its steps. -/
theorem steps_interrupt (c : Handshake α) :
    Relation.ReflTransGen InterruptStep c { c with exchange := c.exchange.interrupt } :=
  .head .raise (.single (.unpark rfl))

/-- Looking for an item, if nothing comes between. -/
theorem steps_look {q : Polling α} (hl : Looks c.consumer q) :
    match c.exchange.poll with
    | some (a, x) => Relation.ReflTransGen PollStep c
        { c with exchange := x, consumer := .waiting (.ofItem c.consumer.isAnnounced a) }
    | none => c.exchange.ring.head = c.exchange.ring.tail → PollStep c
      { c with consumer := q } := by
  rw [Exchange.poll]
  cases hr : c.exchange.ring.poll with
  | none => exact fun heq => .miss hl heq
  | some found =>
    obtain ⟨a, r⟩ := found
    obtain ⟨hne, ha, rfl⟩ := Handoff.poll_eq_some_iff.mp hr
    exact .head (.see hl hne ha) (.single (.take rfl))

theorem steps_advance {items : List α} (hr : c.exchange.ring.Holds items) {w v : Waiting α}
    (hc : c.consumer = .waiting w) (h : c.exchange.advance w = some (x, v)) :
    Relation.ReflTransGen PollStep c { c with exchange := x, consumer := .waiting v } ∧
      ∃ rest, x.ring.Holds rest := by
  have hlook {w' : Waiting α} (hl : Looks c.consumer (.waiting w'))
      (h : (match c.exchange.poll with
        | some (a, y) => some (y, Waiting.ofItem c.consumer.isAnnounced a)
        | none => some (c.exchange, w')) = some (x, v)) :
      Relation.ReflTransGen PollStep c { c with exchange := x, consumer := .waiting v } ∧
        ∃ rest, x.ring.Holds rest := by
    have hsteps := steps_look hl
    rw [Exchange.poll] at h hsteps
    cases hp : c.exchange.ring.poll with
    | none =>
      rw [hp] at h hsteps
      cases h
      exact ⟨.single (hsteps (hr.of_poll_eq_none hp)), items, hr⟩
    | some found =>
      rw [hp] at h hsteps
      cases h
      obtain ⟨rest, -, hholds⟩ := hr.of_poll_eq_some hp
      exact ⟨hsteps, rest, hholds⟩
  by_cases hfirst : w = .polling
  · subst hfirst
    have hl : Looks c.consumer (.waiting .checking) := hc ▸ .first
    exact hlook hl (by rw [hc]; exact h)
  by_cases hagain : w = .polledAgain
  · subst hagain
    have hl : Looks c.consumer (.waiting .checkingAgain) := hc ▸ .again
    exact hlook hl (by rw [hc]; exact h)
  exact ⟨.single (.advance hc hfirst hagain h), items,
    by rwa [Exchange.ring_advance hfirst hagain h]⟩

/-- **A wait**, if nothing comes between its steps. -/
theorem steps_run {items : List α} (hr : c.exchange.ring.Holds items) {w : Waiting α}
    (hc : c.consumer = .waiting w) (n : Nat) :
    Relation.ReflTransGen PollStep c
      { c with
        exchange := (c.exchange.run n w).1, consumer := .waiting (c.exchange.run n w).2 } := by
  induction n generalizing c w items with
  | zero => rw [Exchange.run, ← hc]
  | succ n ih =>
    rw [Exchange.run]
    cases h : c.exchange.advance w with
    | none => rw [← hc]
    | some next =>
      obtain ⟨x, v⟩ := next
      obtain ⟨hstep, rest, hrest⟩ := steps_advance hr hc h
      exact hstep.trans (ih (c := { c with exchange := x, consumer := .waiting v }) hrest rfl)

theorem steps_of_poll {d : Handshake α} (h : Relation.ReflTransGen PollStep c d) :
    Relation.ReflTransGen Step c d :=
  Relation.ReflTransGen.mono (fun _ _ => Step.poll) c d h

end Links

/-! ## What holds between any two steps -/

/-- The consumer is parked, and no token is left for it. -/
def Blocked (c : Handshake α) : Prop := c.consumer = .waiting .parked ∧ c.exchange.token = false

/-- The producer has published an item, and has yet to leave a token for it. -/
def Publishing (c : Handshake α) : Prop := c.producer = .published ∨ c.producer = .waking

/-- What holds between any two steps, while the ring holds certain items. -/
structure Sound (c : Handshake α) (items : List α) : Prop where
  holds : c.exchange.ring.Holds items
  /-- Nobody but the producer takes up places. -/
  room : ∀ a, c.producer = .storing a → items.length < c.exchange.ring.capacity
  /-- Nobody but the consumer takes items. -/
  oldest : ∀ a b, c.consumer = .taking a b → ∃ rest, items = a :: rest
  announced : c.exchange.consumerWaiting = c.consumer.isAnnounced
  /-- An item that the consumer missed when it looked once more was published after it announced
  itself. -/
  item : c.consumer = .waiting .checkingAgain ∨ c.consumer = .waiting .parked → items ≠ [] →
    c.exchange.token = true ∨ c.Publishing
  interrupt : c.consumer = .waiting .parked → c.exchange.interrupted = true →
    c.exchange.token = true ∨ 0 < c.raised

section Soundness

variable {c d : Handshake α} {items : List α}

theorem sound_start {wanted : Nat} (h : wanted ≤ 2 ^ 63) (cursor : UInt64) :
    (start wanted cursor : Handshake α).Sound [] where
  holds := Handoff.holds_emptyAt h cursor
  room := fun _ heq => nomatch heq
  oldest := fun _ _ heq => nomatch heq
  announced := rfl
  item := fun _ hne => absurd rfl hne
  interrupt := fun heq => nomatch heq

/-- While the consumer has announced itself, a producer that has published an item comes to leave a
token. -/
theorem Sound.of_offerStep (hs : c.Sound items) (h : OfferStep c d) : ∃ rest, d.Sound rest := by
  cases h with
  | full hp h => exact ⟨items, hs⟩
  | check a hp h =>
    refine ⟨items, { hs with room := fun _ _ => hs.holds.size_eq ▸ h, item := fun hc hne => ?_ }⟩
    refine (hs.item hc hne).imp_right fun hpublishing => ?_
    rcases hpublishing with heq | heq
    · exact absurd (hp.symm.trans heq) (by simp)
    · exact absurd (hp.symm.trans heq) (by simp)
  | @store a hp =>
    refine ⟨items ++ [a], { hs with
      holds := hs.holds.put (hs.room a hp) a
      room := fun _ heq => nomatch heq
      oldest := fun b _ hc => ?_
      item := fun _ _ => Or.inr (Or.inl rfl) }⟩
    obtain ⟨rest, hrest⟩ := hs.oldest b _ hc
    exact ⟨rest ++ [a], by rw [hrest]; rfl⟩
  | look hp =>
    refine ⟨items, { hs with
      room := fun a heq => ?_
      item := fun hc hne => ?_ }⟩
    · dsimp only at heq
      split_ifs at heq
    · have hwaits : c.exchange.consumerWaiting = true := by
        rw [hs.announced]
        rcases hc with hc | hc
        · exact congrArg Polling.isAnnounced hc
        · exact congrArg Polling.isAnnounced hc
      exact Or.inr (Or.inr (if_pos hwaits))
  | wake hp =>
    exact ⟨items, { hs with
      room := fun _ heq => nomatch heq
      item := fun _ _ => Or.inl rfl
      interrupt := fun _ _ => Or.inl rfl }⟩

theorem Sound.of_interruptStep (hs : c.Sound items) (h : InterruptStep c d) : d.Sound items := by
  cases h with
  | raise => exact { hs with interrupt := fun _ _ => Or.inr (Nat.succ_pos _) }
  | unpark h => exact { hs with item := fun _ _ => Or.inl rfl, interrupt := fun _ _ => Or.inl rfl }

/-- Where the consumer goes on without an item, it has announced as much as before. -/
theorem Looks.isAnnounced {p q : Polling α} (h : Looks p q) :
    q.isAnnounced = p.isAnnounced ∧ (∀ a b, q ≠ .taking a b) ∧ q ≠ .waiting .parked := by
  cases h <;> simp [Polling.isAnnounced]

theorem isAnnounced_ofItem (announced : Bool) (a : α) :
    (Polling.waiting (.ofItem announced a)).isAnnounced = announced ∧
      Waiting.ofItem announced a ≠ .checkingAgain ∧ Waiting.ofItem announced a ≠ .parked := by
  cases announced <;> simp [Waiting.ofItem, Polling.isAnnounced]

/-- A step of the consumer after which it has no item at hand, and does not rely on the others. -/
theorem Sound.of_consumer (hs : c.Sound items) {x : Exchange α} {q : Polling α}
    (hring : x.ring = c.exchange.ring) (hannounced : x.consumerWaiting = q.isAnnounced)
    (htaking : ∀ a b, q ≠ .taking a b) (hagain : q ≠ .waiting .checkingAgain)
    (hparked : q ≠ .waiting .parked) :
    Sound { c with exchange := x, consumer := q } items where
  holds := hring ▸ hs.holds
  room := hring ▸ hs.room
  oldest := fun a b hq => absurd hq (htaking a b)
  announced := hannounced
  item := fun hq => hq.elim (absurd · hagain) (absurd · hparked)
  interrupt := fun hq => absurd hq hparked

/-- The steps of a wait that read or write a flag or the token. -/
theorem Sound.of_advance (hs : c.Sound items) {x : Exchange α} {w v : Waiting α}
    (hc : c.consumer = .waiting w)
    (hfirst : w ≠ .polling) (hagain : w ≠ .polledAgain) (h : c.exchange.advance w = some (x, v)) :
    Sound { c with exchange := x, consumer := .waiting v } items := by
  have hring := Exchange.ring_advance hfirst hagain h
  have hflag : c.exchange.consumerWaiting = (Polling.waiting w).isAnnounced := by
    rw [hs.announced, hc]
  cases w with
  | polling => exact absurd rfl hfirst
  | polledAgain => exact absurd rfl hagain
  | done answer => cases h
  | checking =>
    rw [Exchange.advance] at h
    split_ifs at h
    · cases h
      exact hs.of_consumer hring hflag (by simp) (by simp) (by simp)
    · cases h
      exact hs.of_consumer hring hflag (by simp) (by simp) (by simp)
  | announcing =>
    cases h
    exact hs.of_consumer hring rfl (by simp) (by simp) (by simp)
  | checkingAgain =>
    cases h
    split_ifs with hinterrupted
    · exact hs.of_consumer rfl hflag (by simp) (by simp) (by simp)
    · -- It relies on the others from its second look on, and finds no interrupt.
      exact { hs with
        oldest := fun _ _ hq => nomatch hq
        announced := hflag
        item := fun _ => hs.item (Or.inl hc)
        interrupt := fun _ hraised => absurd hraised hinterrupted }
  | parked =>
    rw [Exchange.advance] at h
    split_ifs at h
    cases h
    exact hs.of_consumer hring hflag (by simp) (by simp) (by simp)
  | withdrawing found =>
    cases found with
    | none =>
      cases h
      exact hs.of_consumer hring rfl (by simp) (by simp) (by simp)
    | some a =>
      cases h
      exact hs.of_consumer hring rfl (by simp) (by simp) (by simp)

theorem Sound.of_pollStep (hs : c.Sound items) (h : PollStep c d) : ∃ rest, d.Sound rest := by
  cases h with
  | call hc =>
    have hflag : c.exchange.consumerWaiting = false := by rw [hs.announced, hc]; rfl
    exact ⟨items, hs.of_consumer rfl hflag (by simp) (by simp) (by simp)⟩
  | answer hc =>
    have hflag : c.exchange.consumerWaiting = false := by rw [hs.announced, hc]; rfl
    exact ⟨items, hs.of_consumer rfl hflag (by simp) (by simp) (by simp)⟩
  | miss hl heq =>
    obtain ⟨hannounced, htaking, hparked⟩ := hl.isAnnounced
    have hnil := hs.holds.head_eq_tail_iff.mp heq
    exact ⟨items, { hs with
      oldest := fun a b hq => absurd hq (htaking a b)
      announced := hs.announced.trans hannounced.symm
      item := fun _ hne => absurd hnil hne
      interrupt := fun hq => absurd hq hparked }⟩
  | @see q a hl hne ha =>
    have hrest : ∃ rest, items = a :: rest := by
      cases items with
      | nil => exact absurd (hs.holds.head_eq_tail_iff.mpr rfl) hne
      | cons b rest =>
        obtain ⟨-, hb, -⟩ := hs.holds.slotAt_head
        rw [ha] at hb
        exact ⟨rest, by rw [Option.some.inj hb]⟩
    refine ⟨items, { hs with
      oldest := ?_
      announced := hs.announced
      item := fun hq => by simp at hq
      interrupt := fun hq => by simp at hq }⟩
    rintro a' b' ⟨⟩
    exact hrest
  | @take a announced hc =>
    obtain ⟨rest, rfl⟩ := hs.oldest a announced hc
    obtain ⟨hannounced, hagain, hparked⟩ := isAnnounced_ofItem announced a
    obtain ⟨-, -, hholds⟩ := hs.holds.slotAt_head
    exact ⟨rest, {
      holds := hholds
      room := fun b hp => Nat.lt_of_succ_lt (hs.room b hp)
      oldest := fun _ _ hq => nomatch hq
      announced := hs.announced.trans ((congrArg Polling.isAnnounced hc).trans hannounced.symm)
      item := fun hq => by simp [hagain, hparked] at hq
      interrupt := fun hq => by simp [hparked] at hq }⟩
  | advance hc hfirst hagain h => exact ⟨items, hs.of_advance hc hfirst hagain h⟩

/-- **One step** of any of them. -/
theorem Sound.step (hs : c.Sound items) (h : Step c d) : ∃ rest, d.Sound rest := by
  cases h with
  | offer h => exact hs.of_offerStep h
  | interrupt h => exact ⟨items, hs.of_interruptStep h⟩
  | poll h => exact hs.of_pollStep h

/-- **Any steps**. -/
theorem Sound.steps (hs : c.Sound items) (h : Relation.ReflTransGen Step c d) :
    ∃ rest, d.Sound rest := by
  induction h with
  | refl => exact ⟨items, hs⟩
  | tail _ hstep ih =>
    obtain ⟨rest, hrest⟩ := ih
    exact hrest.step hstep

/-- **The consumer can go on** unless it is parked and there is no token. -/
theorem Sound.exists_pollStep_iff (hs : c.Sound items) : (∃ d, PollStep c d) ↔ ¬ c.Blocked := by
  constructor
  · rintro ⟨d, h⟩ ⟨hparked, htoken⟩
    cases h with
    | call hc => exact nomatch hparked.symm.trans hc
    | answer hc => exact nomatch hparked.symm.trans hc
    | take hc => exact nomatch hparked.symm.trans hc
    | miss hl h =>
      rw [hparked] at hl
      cases hl
    | see hl h ha =>
      rw [hparked] at hl
      cases hl
    | advance hc hfirst hagain h =>
      cases hparked.symm.trans hc
      simp [Exchange.advance, htoken] at h
  · intro hfree
    have hlook {q : Polling α} (hl : Looks c.consumer q) : ∃ d, PollStep c d := by
      cases items with
      | nil => exact ⟨_, .miss hl (hs.holds.head_eq_tail_iff.mpr rfl)⟩
      | cons a rest =>
        obtain ⟨hne, ha, -⟩ := hs.holds.slotAt_head
        exact ⟨_, .see hl hne ha⟩
    cases hc : c.consumer with
    | idle => exact ⟨_, .call hc⟩
    | taking a announced => exact ⟨_, .take hc⟩
    | waiting w =>
      cases w with
      | polling =>
        have hl : Looks c.consumer (.waiting .checking) := hc ▸ .first
        exact hlook hl
      | polledAgain =>
        have hl : Looks c.consumer (.waiting .checkingAgain) := hc ▸ .again
        exact hlook hl
      | done answer => exact ⟨_, .answer hc⟩
      | checking =>
        by_cases hi : c.exchange.interrupted
        · exact ⟨_, .advance hc (by simp) (by simp) (if_pos hi)⟩
        · exact ⟨_, .advance hc (by simp) (by simp) (if_neg hi)⟩
      | announcing => exact ⟨_, .advance hc (by simp) (by simp) rfl⟩
      | checkingAgain => exact ⟨_, .advance hc (by simp) (by simp) rfl⟩
      | withdrawing found => cases found <;> exact ⟨_, .advance hc (by simp) (by simp) rfl⟩
      | parked =>
        have htoken : c.exchange.token = true := by
          by_contra hnone
          exact hfree ⟨hc, Bool.eq_false_iff.mpr hnone⟩
        exact ⟨_, .advance hc (by simp) (by simp) (if_pos htoken)⟩

end Soundness

/-- **No wake-up is lost.** Whatever steps the producer, the consumer and those who interrupt it
have done, in any order: when the consumer is parked and there is no token, the ring is empty, or
the producer has published an item and has yet to leave a token; no interrupt is pending, or
somebody who interrupts has yet to leave a token; and the announcement of the consumer stands, so
that the producer will find it. -/
theorem nothing_missed_while_blocked {wanted : Nat} (hwanted : wanted ≤ 2 ^ 63) (cursor : UInt64)
    {c : Handshake α} (h : Relation.ReflTransGen Step (start wanted cursor) c)
    (hblocked : c.Blocked) :
    (c.exchange.ring.isEmpty = true ∨ c.Publishing) ∧
    (c.exchange.interrupted = false ∨ 0 < c.raised) ∧
      c.exchange.consumerWaiting = true := by
  obtain ⟨items, hs⟩ := (sound_start hwanted cursor).steps h
  obtain ⟨hparked, htoken⟩ := hblocked
  have hnone : c.exchange.token ≠ true := Bool.eq_false_iff.mp htoken
  refine ⟨?_, ?_, ?_⟩
  · cases items with
    | nil =>
      left
      rw [Handoff.isEmpty, hs.holds.size_eq]
      rfl
    | cons a rest =>
      exact Or.inr ((hs.item (Or.inr hparked) (List.cons_ne_nil a rest)).resolve_left hnone)
  · cases hi : c.exchange.interrupted with
    | false => exact Or.inl rfl
    | true => exact Or.inr ((hs.interrupt hparked hi).resolve_left hnone)
  · rw [hs.announced, hparked]
    rfl

/-- The consumer takes an item when it looks once more, and the token for that item comes later. So
the next wait goes round twice before the consumer is blocked. Then the second item is published,
and somebody has made an interrupt pending, and neither has left a token yet. -/
theorem nothing_missed_while_blocked_stale :
    ∃ c : Handshake Nat, 1 ≤ 2 ^ 63 ∧ Relation.ReflTransGen Step (start 1 0) c ∧ c.Blocked ∧
      c.exchange.ring.toList = [2] ∧ c.exchange.interrupted = true ∧ c.Publishing ∧
        0 < c.raised := by
  let empty : Handoff Nat := .emptyAt 1 0
  let once : Handoff Nat := (empty.put 1).skip
  -- The consumer is about to look once more, and the producer has found its announcement.
  let met : Handshake Nat := {
    exchange := { ring := empty.put 1, consumerWaiting := true }
    producer := .waking
    consumer := .waiting .polledAgain }
  let waited : Handshake Nat := {
    exchange := { ring := once, consumerWaiting := true }
    consumer := .waiting .parked }
  let c : Handshake Nat := {
    exchange := { ring := once.put 2, consumerWaiting := true, interrupted := true }
    producer := .published
    consumer := .waiting .parked
    raised := 1 }
  have hempty : empty.Holds [] := Handoff.holds_emptyAt (by decide) 0
  have hfull : (empty.put 1).Holds [1] := hempty.put (by decide) 1
  have honce : once.Holds [] := hfull.slotAt_head.2.2
  let called : Handshake Nat := { exchange := { ring := empty }, consumer := .waiting .polling }
  let again : Handshake Nat :=
    { exchange := { ring := once, token := true }, consumer := .waiting .polling }
  have hannounced : Relation.ReflTransGen PollStep called
      { called with exchange.consumerWaiting := true, consumer := .waiting .polledAgain } :=
    steps_run (c := called) hempty rfl 3
  have hmet : Relation.ReflTransGen Step (start 1 0) met :=
    .head (.poll (.call rfl)) ((steps_of_poll hannounced).trans
      (.head (.offer (.check 1 rfl (by decide +kernel)))
        (.head (.offer (.store rfl)) (.single (.offer (.look rfl))))))
  have htaken : Relation.ReflTransGen PollStep met
      { met with exchange := { ring := once }, consumer := .waiting (.done (.item 1)) } :=
    steps_run (c := met) hfull rfl 2
  have hwaited : Relation.ReflTransGen PollStep again waited := steps_run (c := again) honce rfl 16
  have hstale : Relation.ReflTransGen Step met waited :=
    (steps_of_poll htaken).trans (.head (.poll (.answer rfl)) (.head (.offer (.wake rfl))
      (.head (.poll (.call rfl)) (steps_of_poll hwaited))))
  have hraised : Relation.ReflTransGen Step waited c :=
    .head (.interrupt .raise)
      (.head (.offer (.check 2 rfl (by decide +kernel))) (.single (.offer (.store rfl))))
  have hrun := (hmet.trans hstale).trans hraised
  obtain ⟨hitem, hinterrupt, -⟩ := nothing_missed_while_blocked (by decide) 0 hrun ⟨rfl, rfl⟩
  exact ⟨c, by decide, hrun, ⟨rfl, rfl⟩,
    by decide +kernel, rfl, hitem.resolve_left (by decide +kernel),
    hinterrupt.resolve_left (by decide)⟩

end Handshake

end Admission
