import Admission.Handoff.Parking
import Admission.Proofs.Handoff.Contents
import Mathlib.Tactic.SplitIfs

/-!
# First in, first out

An exchange answers like a plain list with a mark for a pending interrupt: items go to the end of
the list while there is room, and come from its front. A wait takes the oldest item if there is one,
whatever is pending, and the interrupt otherwise. If there is neither the consumer parks, and once
one of them comes it finds a token, so that it may go on as if it had only begun to wait.

What the flag of the consumer and the token do besides stays inside of the exchange. The flag is set
while the consumer is parked and at no other time between two calls, and a token that is left over
from an item that was taken without parking costs the consumer one round.

## Main definitions

* `Exchange.Call`, `Exchange.Reply`: what the producer, the consumer and interrupters can ask for
* `Exchange.Session.serve`: an exchange in use, and what it answers
* `Fifo.serve`: what a list with a mark answers
* `Exchange.Session.Follows`: an exchange behaves like a list

## Main results

* `Exchange.run_polling`, `Exchange.run_parked`: a wait from where it begins, and from where it
  parked
* `Exchange.Session.Follows.serve`, `Exchange.Session.Follows.serveAll`: one call, and a run
* `Fifo.accepted_eq`: what was accepted was taken or is still held, in one order
* `exchange_in_order`: all of it for any run
-/

namespace Admission

namespace Exchange

variable {α : Type}

/-! ## Exchanges in use -/

/-- What can be asked of an exchange. -/
inductive Call (α : Type) where
  | offer (item : α)
  | poll
  | interrupt
  /-- Waits for an item, or goes on with the wait that the consumer is in. -/
  | wait
deriving DecidableEq, Repr

/-- What an exchange answers. -/
inductive Reply (α : Type) where
  | accepted
  /-- There was no place for the item, which is handed back. -/
  | full (item : α)
  | item (a : α)
  | nothing
  | interrupted
  /-- The consumer is parked. -/
  | waiting
deriving DecidableEq, Repr

/-- An exchange in use. -/
structure Session (α : Type) where
  exchange : Exchange α
  /-- Where the consumer stands in a wait that has not ended. -/
  wait : Option (Waiting α) := none

namespace Session

/-- An exchange for at least `wanted` items whose cursors both start at `cursor`. -/
def start (wanted : Nat) (cursor : UInt64) : Session α :=
  { exchange := { ring := .emptyAt wanted cursor } }

/-- A session after a wait that went as far as it could. -/
def resume : Exchange α × Waiting α → Reply α × Session α
  | (x, .done (.item a)) => (.item a, { exchange := x })
  | (x, .done .interrupted) => (.interrupted, { exchange := x })
  | (x, w) => (.waiting, { exchange := x, wait := some w })

/-- Answers a call. A consumer that is parked asks for nothing but to go on. -/
def serve (s : Session α) : Call α → Reply α × Session α
  | .offer item =>
    match s.exchange.offer item with
    | .ok x => (.accepted, { s with exchange := x })
    | .error item => (.full item, s)
  | .poll =>
    match s.wait with
    | some _ => (.waiting, s)
    | none => match s.exchange.poll with
      | some (a, x) => (.item a, { s with exchange := x })
      | none => (.nothing, s)
  | .interrupt => (.nothing, { s with exchange := s.exchange.interrupt })
  | .wait => resume (s.exchange.blockingPoll (s.wait.getD .polling))

/-- Answers some calls one after another. -/
def serveAll : Session α → List (Call α) → List (Reply α) × Session α
  | s, [] => ([], s)
  | s, c :: rest =>
    let (reply, s) := s.serve c
    let (replies, s) := serveAll s rest
    (reply :: replies, s)

end Session

/-- The items that were accepted, in the order of the calls. -/
def accepted (calls : List (Call α)) (replies : List (Reply α)) : List α :=
  (calls.zip replies).filterMap fun
    | (.offer a, .accepted) => some a
    | _ => none

/-- The items that were taken, in the order of the calls. -/
def taken (replies : List (Reply α)) : List α :=
  replies.filterMap fun
    | .item a => some a
    | _ => none

end Exchange

open Exchange (Call Reply accepted taken)

/-! ## Lists in use -/

/-- A list of items with a mark for a pending interrupt. -/
structure Fifo (α : Type) where
  capacity : Nat
  items : List α := []
  interrupted : Bool := false
  /-- Whether the consumer waits. -/
  waiting : Bool := false
deriving DecidableEq, Repr

namespace Fifo

variable {α : Type}

/-- Answers a call. -/
def serve (f : Fifo α) : Call α → Reply α × Fifo α
  | .offer a =>
    if f.items.length < f.capacity then (.accepted, { f with items := f.items ++ [a] })
    else (.full a, f)
  | .poll =>
    if f.waiting then (.waiting, f)
    else match f.items with
      | a :: items => (.item a, { f with items })
      | [] => (.nothing, f)
  | .interrupt => (.nothing, { f with interrupted := true })
  | .wait =>
    match f.items with
    -- An interrupt stays pending as long as there are items.
    | a :: items => (.item a, { f with items, waiting := false })
    | [] =>
      if f.interrupted then (.interrupted, { f with interrupted := false, waiting := false })
      else (.waiting, { f with waiting := true })

/-- Answers some calls one after another. -/
def serveAll : Fifo α → List (Call α) → List (Reply α) × Fifo α
  | f, [] => ([], f)
  | f, c :: rest =>
    let (reply, f) := f.serve c
    let (replies, f) := serveAll f rest
    (reply :: replies, f)

variable {f : Fifo α}

theorem capacity_serve (c : Call α) : (f.serve c).2.capacity = f.capacity := by
  cases c with
  | offer a =>
    rw [serve]
    split_ifs
    · rfl
    · rfl
  | poll =>
    rw [serve]
    split_ifs
    · rfl
    · split
      · rfl
      · rfl
  | interrupt => rfl
  | wait =>
    rw [serve]
    split
    · rfl
    · split_ifs
      · rfl
      · rfl

theorem capacity_serveAll (calls : List (Call α)) : (f.serveAll calls).2.capacity = f.capacity := by
  induction calls generalizing f with
  | nil => rfl
  | cons c rest ih => exact ih.trans (capacity_serve c)

/-- What a call accepts goes to the end, and what it takes comes from the front. -/
theorem accepted_serve (c : Call α) :
    f.items ++ accepted [c] [(f.serve c).1] = taken [(f.serve c).1] ++ (f.serve c).2.items := by
  cases c with
  | offer a =>
    rw [serve]
    split_ifs
    · rfl
    · exact List.append_nil _
  | poll =>
    rw [serve]
    split_ifs
    · exact List.append_nil _
    · split
      · rename_i a items hitems
        rw [hitems]
        exact List.append_nil _
      · exact List.append_nil _
  | interrupt => exact List.append_nil _
  | wait =>
    rw [serve]
    split
    · rename_i a items hitems
      rw [hitems]
      exact List.append_nil _
    · rename_i hitems
      split_ifs
      · exact List.append_nil _
      · exact List.append_nil _

theorem accepted_cons (c : Call α) (calls : List (Call α)) (r : Reply α)
    (replies : List (Reply α)) :
    accepted (c :: calls) (r :: replies) = accepted [c] [r] ++ accepted calls replies := by
  rw [accepted, List.zip_cons_cons, List.filterMap_cons]
  cases c <;> cases r <;> rfl

theorem taken_cons (r : Reply α) (replies : List (Reply α)) :
    taken (r :: replies) = taken [r] ++ taken replies := by
  cases r <;> rfl

/-- What was accepted was taken or is still held, in one order. -/
theorem accepted_eq (calls : List (Call α)) :
    f.items ++ accepted calls (f.serveAll calls).1 =
      taken (f.serveAll calls).1 ++ (f.serveAll calls).2.items := by
  induction calls generalizing f with
  | nil => exact List.append_nil _
  | cons c rest ih =>
    have hstep := accepted_serve (f := f) c
    have hrest := ih (f := (f.serve c).2)
    simp only [serveAll]
    rw [accepted_cons, taken_cons, ← List.append_assoc, hstep, List.append_assoc, hrest,
      List.append_assoc]

end Fifo

/-! ## Waits -/

namespace Exchange

variable {α : Type} {x y : Exchange α} {w v : Waiting α}

theorem run_succ (h : x.advance w = some (y, v)) (n : Nat) : run (n + 1) x w = run n y v := by
  rw [run, h]

theorem run_of_advance_eq_none (h : x.advance w = none) (n : Nat) : run n x w = (x, w) := by
  cases n with
  | zero => rfl
  | succ n => rw [run, h]

theorem run_done (x : Exchange α) (answer : Polled α) (n : Nat) :
    run n x (.done answer) = (x, .done answer) := run_of_advance_eq_none rfl n

theorem advance_polling {r : Handoff α} {a : α} (h : x.ring.poll = some (a, r)) :
    x.advance .polling = some ({ x with ring := r }, .done (.item a)) := by
  simp [advance, poll, h]

/-- Without an item and without an interrupt, a consumer that begins to wait comes to park. -/
theorem run_to_parked (hr : x.ring.poll = none) (hi : x.interrupted = false) (n : Nat) :
    run (n + 5) x .polling = run n { x with consumerWaiting := true } .parked := by
  rw [run_succ (y := x) (v := .checking) (by simp [advance, poll, hr]),
    run_succ (y := x) (v := .announcing) (by simp [advance, hi]),
    run_succ (y := { x with consumerWaiting := true }) (v := .polledAgain) rfl,
    run_succ (y := { x with consumerWaiting := true }) (v := .checkingAgain)
      (by simp [advance, poll, hr]),
    run_succ (y := { x with consumerWaiting := true }) (v := .parked) (by simp [advance, hi])]

/-- A consumer that finds a token begins anew. -/
theorem run_of_token (ht : x.token = true) (n : Nat) :
    run (n + 2) x .parked = run n { x with token := false, consumerWaiting := false } .polling := by
  rw [run_succ (y := { x with token := false }) (v := .withdrawing none) (by simp [advance, ht]),
    run_succ (y := { x with token := false, consumerWaiting := false }) (v := .polling) rfl]

theorem run_without_token (ht : x.token = false) (n : Nat) : run n x .parked = (x, .parked) :=
  run_of_advance_eq_none (by simp [advance, ht]) n

/-- A wait from where it begins. It may use up a token that is left and then comes to park once
more. -/
theorem run_polling (x : Exchange α) (n : Nat) :
    run (n + 12) x .polling =
      match x.ring.poll with
      | some (a, r) => ({ x with ring := r }, .done (.item a))
      | none =>
        if x.interrupted then ({ x with interrupted := false }, .done .interrupted)
        else ({ x with consumerWaiting := true, token := false }, .parked) := by
  obtain ⟨ring, consumerWaiting, interrupted, token⟩ := x
  dsimp only
  cases hr : ring.poll with
  | some found =>
    obtain ⟨a, r⟩ := found
    rw [run_succ (advance_polling hr), run_done]
  | none =>
    cases interrupted with
    | true =>
      rw [run_succ (y := ⟨ring, consumerWaiting, true, token⟩) (v := .checking)
          (by simp [advance, poll, hr]),
        run_succ (y := ⟨ring, consumerWaiting, false, token⟩) (v := .done .interrupted) rfl,
          run_done]
      rfl
    | false =>
      rw [run_to_parked hr rfl]
      cases token with
      | false => exact run_without_token rfl _
      | true =>
        rw [run_of_token rfl, run_to_parked hr rfl]
        exact run_without_token rfl n

/-- A wait from where it parked. -/
theorem run_parked (x : Exchange α) (n : Nat) :
    run (n + 14) x .parked =
      if x.token then run (n + 12) { x with token := false, consumerWaiting := false } .polling
      else (x, .parked) := by
  split_ifs with ht
  · exact run_of_token ht (n + 12)
  · exact run_without_token (Bool.eq_false_iff.mpr ht) _

end Exchange

/-! ## Exchanges behave like lists -/

namespace Exchange.Session

variable {α : Type} {s : Session α} {f : Fifo α}

/-- A session that behaves like a list: the ring holds the items of the list, and the consumer is
parked if it waits. A consumer for which there is something finds a token. -/
structure Follows (s : Session α) (f : Fifo α) : Prop where
  ring : s.exchange.ring.Holds f.items
  capacity : s.exchange.ring.capacity = f.capacity
  interrupted : s.exchange.interrupted = f.interrupted
  consumerWaiting : s.exchange.consumerWaiting = f.waiting
  wait : s.wait = if f.waiting then some .parked else none
  token : f.waiting = true → f.items ≠ [] ∨ f.interrupted = true → s.exchange.token = true

theorem follows_start {wanted : Nat} (h : wanted ≤ 2 ^ 63) (cursor : UInt64) :
    (start wanted cursor : Session α).Follows { capacity := ceilPow2 wanted } where
  ring := Handoff.holds_emptyAt h cursor
  capacity := rfl
  interrupted := rfl
  consumerWaiting := rfl
  wait := rfl
  token := by rintro ⟨⟩

/-- A wait that begins takes what there is, or leaves the consumer parked. -/
theorem Follows.resume_polling {x : Exchange α} (hring : x.ring.Holds f.items)
    (hcapacity : x.ring.capacity = f.capacity) (hinterrupted : x.interrupted = f.interrupted)
    (hconsumer : x.consumerWaiting = false) (n : Nat) :
    (resume (run (n + 12) x .polling)).1 = (f.serve .wait).1 ∧
      (resume (run (n + 12) x .polling)).2.Follows (f.serve .wait).2 := by
  rw [run_polling, Fifo.serve]
  cases hitems : f.items with
  | cons a items =>
    rw [hitems] at hring
    obtain ⟨r, hpoll, hcap, hholds⟩ := hring.poll_cons
    rw [hpoll]
    exact ⟨rfl, hholds, hcap.trans hcapacity, hinterrupted, hconsumer, rfl, by rintro ⟨⟩⟩
  | nil =>
    rw [hitems] at hring
    rw [hring.poll_nil]
    cases hpending : f.interrupted with
    | true =>
      rw [hinterrupted, hpending]
      exact ⟨rfl, hring, hcapacity, rfl, hconsumer, rfl, by rintro ⟨⟩⟩
    | false =>
      rw [hinterrupted, hpending]
      refine ⟨rfl, hring, hcapacity, rfl, rfl, rfl, fun _ => ?_⟩
      rintro (h | h)
      · exact absurd rfl h
      · cases h

/-- An offer that is accepted leaves a token for a consumer that is parked. -/
theorem Follows.offer (h : s.Follows f) (a : α) :
    (s.serve (.offer a)).1 = (f.serve (.offer a)).1 ∧
      (s.serve (.offer a)).2.Follows (f.serve (.offer a)).2 := by
  have hcapacity := h.capacity
  rw [Session.serve, Exchange.offer, publish, Fifo.serve]
  split_ifs with hlt
  · obtain ⟨r, hr, hcap, hholds⟩ := h.ring.offer_of_lt (hcapacity ▸ hlt) a
    rw [hr]
    dsimp only [Except.map]
    rw [wakeConsumer]
    split_ifs with hconsumer
    · exact ⟨rfl, hholds, hcap.trans hcapacity, h.interrupted, h.consumerWaiting, h.wait,
        fun _ _ => rfl⟩
    · refine ⟨rfl, hholds, hcap.trans hcapacity, h.interrupted, h.consumerWaiting,
        h.wait, fun hw => ?_⟩
      exact absurd (h.consumerWaiting.trans hw) hconsumer
  · rw [h.ring.offer_of_le (by omega)]
    exact ⟨rfl, h⟩

theorem Follows.poll (h : s.Follows f) :
    (s.serve .poll).1 = (f.serve .poll).1 ∧ (s.serve .poll).2.Follows (f.serve .poll).2 := by
  obtain ⟨x, w⟩ := s
  obtain ⟨capacity, items, interrupted, waiting⟩ := f
  obtain ⟨hring, hcapacity, hinterrupted, hconsumer, rfl, htoken⟩ := id h
  cases waiting with
  | true => exact ⟨rfl, h⟩
  | false =>
    rw [Session.serve, Fifo.serve]
    dsimp only [Bool.false_eq_true, if_false]
    rw [if_neg Bool.false_ne_true, Exchange.poll]
    cases items with
    | nil =>
      rw [hring.poll_nil]
      exact ⟨rfl, h⟩
    | cons a items =>
      obtain ⟨r, hpoll, hcap, hholds⟩ := hring.poll_cons
      rw [hpoll]
      exact ⟨rfl, hholds, hcap.trans hcapacity, hinterrupted, hconsumer, rfl, by rintro ⟨⟩⟩

theorem Follows.wait_serve (h : s.Follows f) :
    (s.serve .wait).1 = (f.serve .wait).1 ∧ (s.serve .wait).2.Follows (f.serve .wait).2 := by
  obtain ⟨x, w⟩ := s
  obtain ⟨capacity, items, interrupted, waiting⟩ := f
  obtain ⟨hring, hcapacity, hinterrupted, hconsumer, rfl, htoken⟩ := h
  cases waiting with
  | false => exact resume_polling hring hcapacity hinterrupted hconsumer 4
  | true =>
    rw [Session.serve, blockingPoll]
    dsimp only [if_true, Option.getD_some]
    rw [if_pos rfl, Option.getD_some, run_parked]
    split_ifs with ht
    -- With a token the wait begins anew.
    · exact resume_polling (x := { x with token := false, consumerWaiting := false })
        (f := ⟨capacity, items, interrupted, true⟩) hring hcapacity hinterrupted rfl 2
    -- Without one there is nothing that the consumer could take.
    · obtain rfl : items = [] := by
        by_contra hne
        exact ht (htoken rfl (Or.inl hne))
      obtain rfl : interrupted = false := Bool.eq_false_iff.mpr fun hp =>
        ht (htoken rfl (Or.inr hp))
      exact ⟨rfl, hring, hcapacity, hinterrupted, hconsumer, rfl, htoken⟩

/-- **One call**: an exchange that behaves like a list answers like the list and goes on so. -/
theorem Follows.serve (h : s.Follows f) (c : Call α) :
    (s.serve c).1 = (f.serve c).1 ∧ (s.serve c).2.Follows (f.serve c).2 := by
  cases c with
  | offer a => exact h.offer a
  | poll => exact h.poll
  | interrupt =>
    exact ⟨rfl, h.ring, h.capacity, rfl, h.consumerWaiting, h.wait, fun _ _ => rfl⟩
  | wait => exact h.wait_serve

/-- **A run**, call by call. -/
theorem Follows.serveAll (h : s.Follows f) (calls : List (Call α)) :
    (s.serveAll calls).1 = (f.serveAll calls).1 ∧
      (s.serveAll calls).2.Follows (f.serveAll calls).2 := by
  induction calls generalizing s f with
  | nil => exact ⟨rfl, h⟩
  | cons c rest ih =>
    obtain ⟨hreply, hnext⟩ := h.serve c
    obtain ⟨hreplies, hlast⟩ := ih hnext
    simp only [Session.serveAll, Fifo.serveAll]
    exact ⟨by rw [hreply, hreplies], hlast⟩

end Exchange.Session

/-- **First in, first out**: an exchange for at least `wanted` items has the next power of two as
its capacity, and whatever is asked of it, wherever its cursors start, it answers like a list of
that capacity with a mark for a pending interrupt. What was accepted was taken or is still held, in
one order; what is held is what was accepted less what was taken, and is never more than the
capacity. -/
theorem exchange_in_order {α : Type} {wanted : Nat} (h : wanted ≤ 2 ^ 63) (cursor : UInt64)
    (calls : List (Call α)) :
    let (replies, after) := (Exchange.Session.start wanted cursor).serveAll calls
    let (expected, fifo) := Fifo.serveAll { capacity := ceilPow2 wanted } calls
    let ring := after.exchange.ring
    IsLeast {n | (∃ k, n = 2 ^ k) ∧ max wanted 1 ≤ n} ring.capacity ∧
      replies = expected ∧ ring.toList = fifo.items ∧
        after.exchange.interrupted = fifo.interrupted ∧
      accepted calls replies = taken replies ++ ring.toList ∧
      (accepted calls replies).length = (taken replies).length + ring.size ∧
      ring.size ≤ ring.capacity := by
  obtain ⟨hreplies, hafter⟩ := (Exchange.Session.follows_start (α := α) h cursor).serveAll calls
  have horder := Fifo.accepted_eq (f := { capacity := ceilPow2 wanted }) calls
  rw [List.nil_append] at horder
  have hcapacity :
      ((Exchange.Session.start wanted cursor).serveAll calls).2.exchange.ring.capacity =
        ceilPow2 wanted := hafter.capacity.trans (Fifo.capacity_serveAll calls)
  refine ⟨?_, hreplies, hafter.ring.toList_eq, hafter.interrupted, ?_, ?_, ?_⟩
  · rw [hcapacity]
    exact ceilPow2_isLeast wanted
  · rw [hreplies, hafter.ring.toList_eq, horder]
  · rw [hreplies, hafter.ring.size_eq, horder, List.length_append]
  · rw [hafter.ring.size_eq]
    exact hafter.ring.le_capacity

/-- Cursors that start two steps before the end of their range go around it. The fifth item is
handed back; two interrupts count as one, which stays pending until the last item is taken; and a
consumer that is parked then is woken by the next item. -/
theorem exchange_in_order_around :
    3 ≤ 2 ^ 63 ∧
      ((Exchange.Session.start 3 18446744073709551614).serveAll
          [.offer 1, .offer 2, .offer 3, .offer 4, .offer 5, .interrupt, .poll, .interrupt, .wait,
            .offer 6, .wait, .wait, .wait, .wait, .wait, .offer 7, .wait]).1 =
        [.accepted, .accepted, .accepted, .accepted, .full 5, .nothing, .item 1, .nothing, .item 2,
          .accepted, .item 3, .item 4, .item 6, .interrupted, .waiting, .accepted, .item 7] :=
  ⟨by decide, (exchange_in_order (by decide) 18446744073709551614 _).2.1.trans rfl⟩

end Admission
