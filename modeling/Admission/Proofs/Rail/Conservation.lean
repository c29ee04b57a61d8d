import Admission.Proofs.Rail.Commands
import Admission.Proofs.Rail.Stock
import Admission.Proofs.Scenario.Holders
import Admission.Proofs.Scenario.Steps
import Mathlib.Algebra.BigOperators.Group.List.Basic
import Mathlib.Tactic.SplitIfs

/-!
# Permits are conserved

While a guard rail is used, each semaphore of its chain keeps its books: the permits that remain and
the units that are held, taken as often as the semaphore stands in the chain, make up all permits.
Units are held by hand, by a promise or completable that is pending, or by a return that is still on
the agenda.

## Main definitions

* `World.unitsHeld`, `Machine.unitsHeld`: the units that promises, completables and the agenda hold
* `Machine.Conserves`: the books are right
* `RailOp`, `Handling`: a guard rail in use, with the units that are held by hand

## Main results

* `Machine.Conserves.step`, `Machine.Conserves.run`: callbacks keep the books right
* `World.Conserves.perform`: so does every operation
* `permits_conserved`: what holds after every operation
-/

namespace Admission.Scenario

/-! ## Entries of arrays -/

section Entries

variable {α : Type} {P : α → Prop} {xs : Array α} {x : α}

theorem forall_push (h : ∀ (k : Nat) (a : α), xs[k]? = some a → P a) (hx : P x) (k : Nat) (a : α)
    (ha : (xs.push x)[k]? = some a) : P a := by
  rw [Array.getElem?_push] at ha
  split_ifs at ha
  · cases ha
    exact hx
  · exact h k a ha

theorem forall_setIfInBounds (h : ∀ (k : Nat) (a : α), xs[k]? = some a → P a) (hx : P x) {i : Nat}
    (k : Nat) (a : α) (ha : (xs.setIfInBounds i x)[k]? = some a) : P a := by
  rw [Array.getElem?_setIfInBounds] at ha
  split_ifs at ha
  · cases ha
    exact hx
  · exact h k a ha

end Entries

variable {O : Type} [Outcome O]

/-! ## Units held -/

/-- The units of permits, if there are any. -/
def unitsOf (permits : Option (Permits (Release O))) : Nat := (permits.map (·.units.toNat)).getD 0

/-- The units that a promise holds while it is pending. -/
def promiseUnits (p : ScenarioPromise O) : Nat := if p.isDone then 0 else unitsOf p.permits

/-- The units that a completable holds while it is pending. -/
def completableUnits (k : ScenarioCompletable O) : Nat := if k.isDone then 0 else unitsOf k.permits

/-- The units that promises and completables hold. -/
def World.unitsHeld (w : World O) : Nat :=
  (w.promises.toList.map promiseUnits).sum + (w.completables.toList.map completableUnits).sum

/-- The units that an entry of the agenda returns. -/
def Work.unitsDue : Work O → Nat
  | release _ p _ => p.units.toNat
  | _ => 0

/-- The units that promises, completables and returns on the agenda hold. -/
def Machine.unitsHeld (m : Machine O) : Nat := (m.agenda.map Work.unitsDue).sum + m.world.unitsHeld

theorem World.unitsHeld_storePromise {w : World O} {i : Nat} {p q : ScenarioPromise O}
    (h : w.promises[i]? = some p) :
    (w.storePromise i q).unitsHeld + promiseUnits p = w.unitsHeld + promiseUnits q := by
  have := sum_setIfInBounds promiseUnits q h
  rw [unitsHeld, unitsHeld]
  dsimp only [storePromise]
  omega

theorem World.unitsHeld_addPromise (w : World O) (as : String)
    (permits : Option (Permits (Release O))) :
    (w.addPromise as permits).unitsHeld = w.unitsHeld + unitsOf permits := by
  simp only [unitsHeld, addPromise, World.bind, Array.toList_push, List.map_append, List.sum_append,
    List.map_cons, List.map_nil, List.sum_cons, List.sum_nil, promiseUnits, Promise.isDone,
    Option.isSome_none, Bool.false_eq_true, if_false]
  omega

theorem World.unitsHeld_addCompletable (w : World O) (as : String)
    (permits : Option (Permits (Release O))) :
    (w.addCompletable as permits).unitsHeld = w.unitsHeld + unitsOf permits := by
  simp only [unitsHeld, addCompletable, World.bind, Array.toList_push, List.map_append,
    List.sum_append, List.map_cons, List.map_nil, List.sum_cons, List.sum_nil, completableUnits,
    Completable.isDone, Status.isTerminal, bne_self_eq_false, Bool.false_eq_true, if_false]
  omega

namespace Machine

variable {m : Machine O}

theorem unitsHeld_push (work : List (Work O)) :
    (m.push work).unitsHeld = (work.map Work.unitsDue).sum + m.unitsHeld := by
  rw [unitsHeld, unitsHeld, push, List.map_append, List.sum_append, Nat.add_assoc]

omit [Outcome O] in
theorem sum_unitsDue_release (h : Holder) (permits : Option (Permits (Release O))) (outcome : O) :
    ((permits.map fun p => Work.release h p outcome).toList.map Work.unitsDue).sum =
      unitsOf permits := by
  cases permits with
  | none => rfl
  | some p => exact Nat.add_zero _

/-- A completion only moves units from the promise to the agenda. -/
theorem unitsHeld_settlePromise (i : Nat) (c : Completion O) :
    (m.settlePromise i c).2.unitsHeld = m.unitsHeld := by
  unfold settlePromise
  split
  · rename_i w permits h
    obtain ⟨p, hp, hn, rfl, rfl⟩ := World.settlePromise_eq_some h
    have hw := World.unitsHeld_storePromise (q := { p with result := some c }) hp
    simp only [promiseUnits, Promise.isDone, hn, Option.isSome_none, Option.isSome_some,
      Bool.false_eq_true, if_true, if_false] at hw
    dsimp only
    rw [unitsHeld_push, afterSettle, List.map_append, List.sum_append, sum_unitsDue_release]
    simp only [unitsHeld, Work.unitsDue, List.map_cons, List.map_nil, List.sum_cons, List.sum_nil]
    omega
  · rfl

theorem unitsHeld_settleCompletable (i : Nat) (c : Completion O) :
    (m.settleCompletable i c).2.unitsHeld = m.unitsHeld := by
  unfold settleCompletable
  split
  · rename_i w permits h
    obtain ⟨k, hk, hd, rfl, rfl⟩ := World.settleCompletable_eq_some h
    have hsum := sum_setIfInBounds completableUnits { k with status := c.status } hk
    have hdone :
      Completable.isDone ({ k with status := c.status } : ScenarioCompletable O) = true :=
      Completion.status_isTerminal c
    simp only [completableUnits, hd, hdone, Bool.false_eq_true, if_true, if_false] at hsum
    dsimp only
    rw [unitsHeld_push, sum_unitsDue_release]
    simp only [unitsHeld, World.unitsHeld]
    omega
  · rfl

/-! ## The books of a machine -/

/-- Whether a promise returns its permits to the guard rail at a place and calls nobody back. -/
structure Plain (i : Nat) (p : ScenarioPromise O) : Prop where
  permits : ∀ q, p.permits = some q → q.release = .rail i
  wakers : p.wakers = []
  listeners : p.listeners = []
  links : p.links = []

omit [Outcome O] in
/-- A new promise that takes permits over calls nobody back. -/
theorem plain_pending (i : Nat) (units start : UInt64) :
    Plain i ({ permits := some ⟨units, start, .rail i⟩ } : ScenarioPromise O) := by
  refine ⟨?_, rfl, rfl, rfl⟩
  rintro _ ⟨⟩
  rfl

/-- Whether an entry of the agenda only completes what was begun, for the guard rail at a place. -/
def IsPlain (i : Nat) : Work O → Prop
  | .release _ p _ => p.release = .rail i
  | .wakeAll _ => True
  | .drain _ => True
  | .reply _ => True
  | _ => False

/-- The books of a semaphore are right: what is held from it are the units of promises, completables
and the agenda, and those held by hand. All of them go back to the guard rail at place `i`. -/
structure Conserves (m : Machine O) (rail : String) (i : Nat) (chain : List Nat) (j : Nat)
    (name : String) (reason : Rejection) (max : UInt64) (hand : Nat) : Prop where
  stocked : m.world.bench.Stocked rail i chain j name reason max (m.unitsHeld + hand)
  promises : ∀ (k : Nat) (p : ScenarioPromise O), m.world.promises[k]? = some p → Plain i p
  completables : ∀ (k : Nat) (p : ScenarioCompletable O), m.world.completables[k]? = some p →
    ∀ q, p.permits = some q → q.release = .rail i
  agenda : ∀ work ∈ m.agenda, IsPlain i work

variable {rail : String} {i : Nat} {chain : List Nat} {j : Nat} {name : String}
  {reason : Rejection} {max : UInt64} {hand : Nat}

theorem Conserves.retire (h : m.Conserves rail i chain j name reason max hand) :
    m.retire.Conserves rail i chain j name reason max hand := by
  obtain ⟨services, log, hm⟩ := m.retire_eq
  rw [hm]
  exact ⟨h.stocked, h.promises, h.completables, h.agenda⟩

/-- A completion keeps the books right. -/
theorem Conserves.settlePromise (h : m.Conserves rail i chain j name reason max hand) (k : Nat)
    (c : Completion O) : (m.settlePromise k c).2.Conserves rail i chain j name reason max hand := by
  have hunits := unitsHeld_settlePromise (m := m) k c
  unfold Machine.settlePromise at hunits ⊢
  split at hunits
  · rename_i w permits hsettle
    obtain ⟨p, hp, hn, rfl, rfl⟩ := World.settlePromise_eq_some hsettle
    have hplain := h.promises k p hp
    refine ⟨?_, ?_, h.completables, ?_⟩
    · rw [hunits]
      exact h.stocked
    · exact forall_setIfInBounds (x := { p with result := some c }) h.promises
        ⟨hplain.permits, hplain.wakers, hplain.listeners, hplain.links⟩
    · intro work hwork
      rcases List.mem_append.mp hwork with hwork | hwork
      · rcases List.mem_append.mp hwork with hwork | hwork
        · rw [Option.mem_toList, Option.map_eq_some_iff] at hwork
          obtain ⟨q, hq, rfl⟩ := hwork
          exact hplain.permits q hq
        · rw [List.mem_pair] at hwork
          rcases hwork with rfl | rfl
          · trivial
          · trivial
      · exact h.agenda work hwork
  · exact h

theorem Conserves.settleCompletable (h : m.Conserves rail i chain j name reason max hand) (k : Nat)
    (c : Completion O) :
    (m.settleCompletable k c).2.Conserves rail i chain j name reason max hand := by
  have hunits := unitsHeld_settleCompletable (m := m) k c
  unfold Machine.settleCompletable at hunits ⊢
  split at hunits
  · rename_i w permits hsettle
    obtain ⟨p, hp, hd, rfl, rfl⟩ := World.settleCompletable_eq_some hsettle
    have hplain := h.completables k p hp
    refine ⟨?_, h.promises, ?_, ?_⟩
    · rw [hunits]
      exact h.stocked
    · exact forall_setIfInBounds (x := { p with status := c.status }) h.completables hplain
    · intro work hwork
      rcases List.mem_append.mp hwork with hwork | hwork
      · rw [Option.mem_toList, Option.map_eq_some_iff] at hwork
        obtain ⟨q, hq, rfl⟩ := hwork
        exact hplain q hq
      · exact h.agenda work hwork
  · exact h

theorem Conserves.settle (h : m.Conserves rail i chain j name reason max hand) (holder : Holder)
    (c : Completion O) : (m.settle holder c).2.Conserves rail i chain j name reason max hand := by
  cases holder with
  | promise k => exact h.settlePromise k c
  | completable k => exact h.settleCompletable k c

/-- Replacing a promise by one with the same permits and result changes nothing about the books. -/
theorem Conserves.storePromise (h : m.Conserves rail i chain j name reason max hand) {k : Nat}
    {p q : ScenarioPromise O} (hp : m.world.promises[k]? = some p)
    (hunits : promiseUnits q = promiseUnits p) (hplain : Plain i q) :
    ({ m with world := m.world.storePromise k q } : Machine O).Conserves
      rail i chain j name reason max hand := by
  have hw := World.unitsHeld_storePromise (q := q) hp
  have hm : ({ m with world := m.world.storePromise k q } : Machine O).unitsHeld = m.unitsHeld := by
    rw [unitsHeld, unitsHeld]
    dsimp only
    omega
  refine ⟨?_, ?_, h.completables, h.agenda⟩
  · rw [hm]
    exact h.stocked
  · exact forall_setIfInBounds h.promises hplain

/-- What completes an operation keeps the books right: a return takes its units off the agenda and
off the books. -/
theorem Conserves.step (h : m.Conserves rail i chain j name reason max hand) (hm : m.agenda ≠ []) :
    m.step.Conserves rail i chain j name reason max hand := by
  obtain ⟨w, agenda, last⟩ := m
  cases agenda with
  | nil => exact absurd rfl hm
  | cons work rest =>
    have hplain := h.agenda work List.mem_cons_self
    have hrest : ∀ work ∈ rest, IsPlain i work := fun x hx => h.agenda x (List.mem_cons_of_mem _ hx)
    have hunits (hdue : work.unitsDue = 0) :
        ({ world := w, agenda := rest, last := last } : Machine O).Conserves
          rail i chain j name reason max hand := by
      refine ⟨?_, h.promises, h.completables, hrest⟩
      have := h.stocked
      rwa [unitsHeld, List.map_cons, List.sum_cons, hdue, Nat.zero_add] at this
    cases work with
    | release holder p outcome =>
      obtain ⟨units, start, release⟩ := p
      obtain rfl : release = .rail i := hplain
      refine ⟨?_, h.promises, h.completables, hrest⟩
      have hstocked := h.stocked
      simp only [unitsHeld, List.map_cons, List.sum_cons, Work.unitsDue] at hstocked
      -- The units go off the agenda and off the books at once.
      have hcomm : units.toNat + (rest.map Work.unitsDue).sum + w.unitsHeld + hand =
          (rest.map Work.unitsDue).sum + w.unitsHeld + hand + units.toNat := by
        omega
      rw [hcomm] at hstocked
      exact (hstocked.releaseTo outcome start (w.releaseTime (.rail i))).congr rfl rfl rfl
    | wakeAll k =>
      have hm := hunits rfl
      change (perform _ (.wakeAll k)).Conserves rail i chain j name reason max hand
      rw [perform]
      split
      · rename_i p hp
        have hp' := hm.promises k p hp
        rw [Promise.takeWakers, hp'.wakers]
        exact hm.storePromise hp rfl ⟨hp'.permits, rfl, hp'.listeners, hp'.links⟩
      · exact hm
    | drain k =>
      have hm := hunits rfl
      change (perform _ (.drain k)).Conserves rail i chain j name reason max hand
      rw [perform]
      split
      · rename_i p hp
        have hp' := hm.promises k p hp
        rw [Promise.takeCallbacks_of_eq_nil hp'.listeners hp'.links]
        have hstore := hm.storePromise (q := { p with drained := true }) hp rfl
          ⟨hp'.permits, hp'.wakers, hp'.listeners, hp'.links⟩
        dsimp only
        split
        · rwa [if_pos rfl]
        · exact hstore
      · exact hm
    -- A reply is not about units at all.
    | reply r =>
      have hm := hunits rfl
      exact ⟨hm.stocked, hm.promises, hm.completables, hm.agenda⟩
    -- No other entry can be on the agenda while nobody is called back.
    | _ => exact absurd hplain id

theorem Conserves.run (h : m.Conserves rail i chain j name reason max hand) :
    m.run.Conserves rail i chain j name reason max hand :=
  run_induction (P := fun m => m.Conserves rail i chain j name reason max hand)
    (fun _ hm h => h.step hm) h

/-! ## Operations -/

theorem withFound_induction {P : Machine O → Prop} {α : Type} {found : Except Fault α}
    {f : α → Machine O} (he : ∀ e, P (m.answer (.error e))) (hf : ∀ a, found = .ok a → P (f a)) :
    P (m.withFound found f) := by
  cases found with
  | ok a => exact hf a rfl
  | error e => exact he e

theorem Conserves.answer (h : m.Conserves rail i chain j name reason max hand) (r : Reply O) :
    (m.answer r).Conserves rail i chain j name reason max hand :=
  ⟨h.stocked, h.promises, h.completables, h.agenda⟩

/-- A completion by a command replies at the end. -/
theorem Conserves.attempt (h : m.Conserves rail i chain j name reason max hand) (holder : Holder)
    (c : Completion O) :
    Conserves
      (let (won, n) := (m.push [.reply (.ok (.truth true))]).settle holder c
      if won then n else m.answer (.ok (.truth false))) rail i chain j name reason max hand := by
  have hpush :
      (m.push [.reply (.ok (.truth true))]).Conserves rail i chain j name reason max hand := by
    have hunits : (m.push [.reply (.ok (.truth true))]).unitsHeld = m.unitsHeld := by
      rw [unitsHeld_push]
      exact Nat.zero_add m.unitsHeld
    refine ⟨?_, h.promises, h.completables, ?_⟩
    · rw [hunits]
      exact h.stocked
    · exact List.forall_mem_cons.mpr ⟨trivial, h.agenda⟩
  dsimp only
  split
  · exact hpush.settle holder c
  · exact h.answer _

/-- A bench with the same names, guard rails and gates may take the place of the bench. -/
theorem Conserves.collect (h : m.Conserves rail i chain j name reason max hand) {b : Bench O}
    {held : Nat} (hb : b.Stocked rail i chain j name reason max (m.unitsHeld + held)) :
    (m.collect b).Conserves rail i chain j name reason max held :=
  ⟨hb.congr rfl rfl rfl, h.promises, h.completables, h.agenda⟩

/-- Units that are granted are held by hand at first. -/
theorem Conserves.acquireFrom (h : m.Conserves rail i chain j name reason max hand)
    (units now : UInt64) :
    match m.world.bench.acquireFrom i units now with
    | (none, b) => (m.collect b).Conserves rail i chain j name reason max (units.toNat + hand)
    | (some _, b) => (m.collect b).Conserves rail i chain j name reason max hand := by
  have hasked := h.stocked.acquireFrom units now
  generalize m.world.bench.acquireFrom i units now = answer at hasked ⊢
  obtain ⟨_ | r, b⟩ := answer
  · refine h.collect ?_
    have hcomm : m.unitsHeld + (units.toNat + hand) = m.unitsHeld + hand + units.toNat := by omega
    rw [hcomm]
    exact hasked
  · exact h.collect hasked

theorem Conserves.releaseTo {units : UInt64}
    (h : m.Conserves rail i chain j name reason max (units.toNat + hand)) (outcome : O)
    (start now : UInt64) :
    (m.collect (m.world.bench.releaseTo i units outcome start now)).Conserves
      rail i chain j name reason max hand := by
  have hstocked := h.stocked
  rw [Nat.add_comm units.toNat, ← Nat.add_assoc] at hstocked
  exact h.collect (hstocked.releaseTo outcome start now)

theorem Conserves.releaseUnused {units : UInt64}
    (h : m.Conserves rail i chain j name reason max (units.toNat + hand)) (now : UInt64)
    {r : PlacedRail O} (hr : m.world.bench.rails[i]? = some r) :
    (m.collect { m.world.bench with
      plant := r.rail.releaseUnused units now m.world.bench.plant }).Conserves
      rail i chain j name reason max hand := by
  have hstocked := h.stocked
  rw [Nat.add_comm units.toNat, ← Nat.add_assoc] at hstocked
  exact h.collect (hstocked.releaseUnused now hr)

/-- A new promise takes its units out of the hand. -/
theorem Conserves.addPromise {units : UInt64}
    (h : m.Conserves rail i chain j name reason max (units.toNat + hand)) (as : String)
    (start : UInt64) :
    ({ m with world := m.world.addPromise as (some ⟨units, start, .rail i⟩) } : Machine O).Conserves
      rail i chain j name reason max hand := by
  have hunits : ({ m with world := m.world.addPromise as (some ⟨units, start, .rail i⟩) } :
      Machine O).unitsHeld = m.unitsHeld + units.toNat := by
    rw [unitsHeld, World.unitsHeld_addPromise, ← Nat.add_assoc]
    rfl
  refine ⟨?_, ?_, h.completables, h.agenda⟩
  · rw [hunits, Nat.add_assoc]
    exact h.stocked.bind fun _ => by rintro ⟨⟩
  · exact forall_push h.promises (plain_pending i units start)

theorem Conserves.addCompletable {units : UInt64}
    (h : m.Conserves rail i chain j name reason max (units.toNat + hand)) (as : String)
    (start : UInt64) :
    ({ m with world := m.world.addCompletable as (some ⟨units, start, .rail i⟩) } :
      Machine O).Conserves rail i chain j name reason max hand := by
  have hunits : ({ m with world := m.world.addCompletable as (some ⟨units, start, .rail i⟩) } :
      Machine O).unitsHeld = m.unitsHeld + units.toNat := by
    rw [unitsHeld, World.unitsHeld_addCompletable, ← Nat.add_assoc]
    rfl
  refine ⟨?_, h.promises, ?_, h.agenda⟩
  · rw [hunits, Nat.add_assoc]
    exact h.stocked.bind fun _ => by rintro ⟨⟩
  · refine forall_push h.completables ?_
    rintro p ⟨⟩
    rfl

end Machine

/-- An operation on a guard rail in use. -/
inductive RailOp (O : Type) where
  /-- A request whose permits are held by hand. -/
  | acquire (units now : UInt64)
  /-- A request whose permits a promise takes over. -/
  | promise (units now : UInt64) (as : String)
  /-- A request whose permits a completable takes over. -/
  | completable (units now : UInt64) (as : String)
  /-- A return by hand, with the outcome of the action. -/
  | release (units : UInt64) (outcome : O) (start now : UInt64)
  /-- A return by hand of permits that were not used. -/
  | releaseUnused (units now : UInt64)
  | settle (id : String) (c : Completion O)
  | complete (id : String) (c : Completion O)

namespace RailOp

/-- The command that carries out an operation on the guard rail under a name. -/
def command (rail : String) : RailOp O → Command O
  | acquire units now => .bench (.rail (.acquire rail units now))
  | promise units now as => .railPromise rail units now as false
  | completable units now as => .railCompletable rail units now as false
  | release units outcome start now => .bench (.rail (.release rail units outcome start now))
  | releaseUnused units now => .bench (.rail (.releaseUnused rail units now))
  | settle id c => .settle id c
  | complete id c => .complete id c

/-- The requests that are held by hand after an operation: one more if a request was admitted, and
one less if its permits were returned. -/
def handAfter (reply : Reply O) (hand : List UInt64) : RailOp O → List UInt64
  | acquire units _ => match reply with
    | .ok .nothing => units :: hand
    | _ => hand
  | release units _ _ _ => match reply with
    | .ok _ => hand.erase units
    | .error _ => hand
  | releaseUnused units _ => match reply with
    | .ok _ => hand.erase units
    | .error _ => hand
  | _ => hand

/-- Whether an operation returns only what is held: a return by hand has the units of a request that
was admitted and not yet returned. -/
def Matched (hand : List UInt64) : RailOp O → Prop
  | release units _ _ _ => units ∈ hand
  | releaseUnused units _ => units ∈ hand
  | _ => True

end RailOp

/-- The units that are held by hand. -/
def handUnits (hand : List UInt64) : Nat := (hand.map UInt64.toNat).sum

theorem handUnits_erase {hand : List UInt64} {units : UInt64} (h : units ∈ hand) :
    units.toNat + handUnits (hand.erase units) = handUnits hand :=
  List.sum_map_erase _ h

section Operations

variable {rail : String} {i : Nat} {chain : List Nat} {j : Nat} {name : String}
  {reason : Rejection} {max : UInt64} {hand : List UInt64} {w : World O}

/-- The books of a world in which nothing is on the way. -/
def World.Conserves (w : World O) (rail : String) (i : Nat) (chain : List Nat) (j : Nat)
    (name : String) (reason : Rejection) (max : UInt64) (hand : List UInt64) : Prop :=
  ({ world := w, agenda := [] } : Machine O).Conserves rail i chain j name reason max
    (handUnits hand)

/-- A command without callbacks ends with what it starts. -/
theorem World.perform_of_agenda_eq_nil {c : Command O} {m : Machine O}
    (hm : ({ world := w, agenda := [] } : Machine O).start c = m) (ha : m.agenda = []) :
    w.perform c = (m.last, m.retire.world) := by
  rw [World.perform_eq, hm]
  dsimp only
  rw [Machine.run_of_agenda_eq_nil (by rw [Machine.agenda_retire, ha]), Machine.last_retire]

theorem World.Conserves.of_agenda_eq_nil {m : Machine O} (ha : m.agenda = [])
    (h : m.Conserves rail i chain j name reason max (handUnits hand)) :
    m.retire.world.Conserves rail i chain j name reason max hand := by
  obtain ⟨hstocked, hpromises, hcompletables, -⟩ := h.retire
  refine ⟨?_, hpromises, hcompletables, by simp⟩
  rw [Machine.unitsHeld, Machine.agenda_retire, ha] at hstocked
  exact hstocked

/-- A request by hand. -/
theorem World.Conserves.acquire (h : w.Conserves rail i chain j name reason max hand)
    (units now : UInt64) :
    (w.perform (.bench (.rail (.acquire rail units now)))).2.Conserves rail i chain j
      name reason max
      ((RailOp.acquire (O := O) units now).handAfter
        (w.perform (.bench (.rail (.acquire rail units now)))).1 hand) := by
  have hstart := Machine.start_acquire ({ world := w, agenda := [] } : Machine O) rail units now
  cases hfound : w.findRail rail with
  | error e =>
    rw [hfound] at hstart
    rw [World.perform_of_agenda_eq_nil hstart rfl]
    exact .of_agenda_eq_nil rfl (h.answer _)
  | ok k =>
    -- The name leads to this guard rail only.
    obtain rfl := h.stocked.found k hfound
    have hasked := h.acquireFrom units now
    rw [hfound] at hstart
    dsimp only [Machine.withFound] at hstart hasked
    generalize w.bench.acquireFrom k units now = answer at hstart hasked
    obtain ⟨_ | r, b⟩ := answer
    · rw [World.perform_of_agenda_eq_nil hstart rfl]
      exact .of_agenda_eq_nil rfl (hasked.answer _)
    · rw [World.perform_of_agenda_eq_nil hstart rfl]
      exact .of_agenda_eq_nil rfl (hasked.answer _)

/-- A return by hand. -/
theorem World.Conserves.release (h : w.Conserves rail i chain j name reason max hand)
    {units : UInt64} (hunits : units ∈ hand) (outcome : O) (start now : UInt64) :
    (w.perform (.bench (.rail (.release rail units outcome start now)))).2.Conserves
      rail i chain j name reason max
      ((RailOp.release units outcome start now).handAfter
        (w.perform (.bench (.rail (.release rail units outcome start now)))).1 hand) := by
  have hstart := Machine.start_release ({ world := w, agenda := [] } : Machine O) rail units outcome
    start now
  cases hfound : w.findRail rail with
  | error e =>
    rw [hfound] at hstart
    rw [World.perform_of_agenda_eq_nil hstart rfl]
    exact .of_agenda_eq_nil rfl (h.answer _)
  | ok k =>
    obtain rfl := h.stocked.found k hfound
    -- What is returned was held by hand.
    rw [World.Conserves, ← handUnits_erase hunits] at h
    rw [hfound] at hstart
    rw [World.perform_of_agenda_eq_nil hstart rfl]
    exact .of_agenda_eq_nil rfl ((h.releaseTo outcome start now).answer _)

/-- A return by hand of unused permits. -/
theorem World.Conserves.releaseUnused (h : w.Conserves rail i chain j name reason max hand)
    {units : UInt64} (hunits : units ∈ hand) (now : UInt64) :
    (w.perform (.bench (.rail (.releaseUnused rail units now)))).2.Conserves
      rail i chain j name reason max
      ((RailOp.releaseUnused (O := O) units now).handAfter
        (w.perform (.bench (.rail (.releaseUnused rail units now)))).1 hand) := by
  have hstart :=
    Machine.start_releaseUnused ({ world := w, agenda := [] } : Machine O) rail units now
  cases hfound : w.findRail rail with
  | error e =>
    rw [hfound] at hstart
    rw [World.perform_of_agenda_eq_nil hstart rfl]
    exact .of_agenda_eq_nil rfl (h.answer _)
  | ok k =>
    obtain rfl := h.stocked.found k hfound
    obtain ⟨r, hr, -⟩ := h.stocked.placed
    rw [World.Conserves, ← handUnits_erase hunits] at h
    rw [hfound] at hstart
    dsimp only [Machine.withFound] at hstart hr
    rw [hr] at hstart
    rw [World.perform_of_agenda_eq_nil hstart rfl]
    exact .of_agenda_eq_nil rfl ((h.releaseUnused now hr).answer _)

/-- A request whose permits something takes over that keeps the books right. -/
theorem World.Conserves.withPermits (h : w.Conserves rail i chain j name reason max hand)
    {units now : UInt64} {c : Command O} {f : Permits (Release O) → World O → World O}
    (hc : ({ world := w, agenda := [] } : Machine O).start c =
      ({ world := w, agenda := [] } : Machine O).withPermits rail units now false f)
    (hf : ∀ m : Machine O, m.agenda = [] →
      m.Conserves rail i chain j name reason max (units.toNat + handUnits hand) →
      ({ m with world := f ⟨units, now, .rail i⟩ m.world } : Machine O).Conserves
        rail i chain j name reason max (handUnits hand)) :
    (w.perform c).2.Conserves rail i chain j name reason max hand := by
  rw [Machine.withPermits_eq] at hc
  cases hfound : w.findRail rail with
  | error e =>
    rw [hfound] at hc
    rw [World.perform_of_agenda_eq_nil hc rfl]
    exact .of_agenda_eq_nil rfl (h.answer _)
  | ok k =>
    obtain rfl := h.stocked.found k hfound
    have hasked := h.acquireFrom units now
    rw [hfound] at hc
    dsimp only [Machine.withFound] at hc hasked
    generalize w.bench.acquireFrom k units now = answer at hc hasked
    obtain ⟨_ | r, b⟩ := answer
    · rw [World.perform_of_agenda_eq_nil hc rfl]
      exact .of_agenda_eq_nil rfl ((hf _ rfl hasked).answer _)
    · rw [World.perform_of_agenda_eq_nil hc rfl]
      exact .of_agenda_eq_nil rfl (hasked.answer _)

/-- A completion with all that follows. -/
theorem World.Conserves.run {c : Command O}
    (h : (({ world := w, agenda := [] } : Machine O).start c).Conserves
      rail i chain j name reason max (handUnits hand)) :
    (w.perform c).2.Conserves rail i chain j name reason max hand := by
  rw [World.perform_eq]
  dsimp only
  obtain ⟨hstocked, hpromises, hcompletables, -⟩ := h.retire.run
  refine ⟨?_, hpromises, hcompletables, by simp⟩
  rw [Machine.unitsHeld, Machine.agenda_run] at hstocked
  exact hstocked

/-- Every operation keeps the books right. -/
theorem World.Conserves.perform (h : w.Conserves rail i chain j name reason max hand)
    (op : RailOp O)
    (hop : op.Matched hand) :
    (w.perform (op.command rail)).2.Conserves rail i chain j name reason max
      (op.handAfter (w.perform (op.command rail)).1 hand) := by
  cases op with
  | acquire units now => exact h.acquire units now
  | promise units now as =>
    exact h.withPermits (f := fun permits w => w.addPromise as (some permits)) rfl
      fun m _ hm => hm.addPromise as now
  | completable units now as =>
    exact h.withPermits (f := fun permits w => w.addCompletable as (some permits)) rfl
      fun m _ hm => hm.addCompletable as now
  | release units outcome start now => exact h.release hop outcome start now
  | releaseUnused units now => exact h.releaseUnused hop now
  | settle id c =>
    refine World.Conserves.run ?_
    refine Machine.withFound_induction
      (P := fun m => m.Conserves rail i chain j name reason max (handUnits hand)) ?_ ?_
    · intro e
      exact h.answer _
    · intro k _
      exact h.attempt (.promise k) c
  | complete id c =>
    refine World.Conserves.run ?_
    refine Machine.withFound_induction
      (P := fun m => m.Conserves rail i chain j name reason max (handUnits hand)) ?_ ?_
    · intro e
      exact h.answer _
    · intro k _
      exact h.attempt (.completable k) c

/-- A guard rail in use, with the units that are held by hand. Meanwhile anything may happen that
leaves its promises and completables, its names and guard rails, and all semaphores as they are. -/
inductive Handling (rail : String) (start : World O) : World O → List UInt64 → Prop
  | start : Handling rail start start []
  | perform {w : World O} {hand : List UInt64} (hw : Handling rail start w hand) (op : RailOp O)
    (hop : op.Matched hand) :
    Handling rail start (w.perform (op.command rail)).2
      (op.handAfter (w.perform (op.command rail)).1 hand)
  | elsewhere {w v : World O} {hand : List UInt64} (hw : Handling rail start w hand)
    (hpromises : v.promises = w.promises) (hcompletables : v.completables = w.completables)
    (hnames : v.bench.names = w.bench.names) (hrails : v.bench.rails = w.bench.rails)
    (hsemaphores : ∀ (j : Nat) name reason s,
      w.bench.plant.components[j]? = some (.semaphore name reason s) →
        v.bench.plant.components[j]? = some (.semaphore name reason s)) :
    Handling rail start v hand

/-- The units of all admissions that were not returned yet. -/
def outstanding (w : World O) (hand : List UInt64) : Nat := w.unitsHeld + handUnits hand

/-- **Permits are conserved**: in a world that begins without promises and completables, and after
any operations on a guard rail in which what is returned by hand was admitted before, each semaphore
that was full in the beginning has exactly the outstanding units taken, as often as it stands in the
chain. So it never grants more than it has, and its count never goes around. -/
theorem permits_conserved {start : World O} {r : PlacedRail O} (hrail : start.findRail rail = .ok i)
    (hr : start.bench.rails[i]? = some r) (hpromises : start.promises = #[])
    (hcompletables : start.completables = #[]) {s : Semaphore}
    (hs : start.bench.plant.components[j]? = some (.semaphore name reason s))
    (hfull : s.remaining = s.maxConcurrency) (hw : Handling rail start w hand) :
    ∃ t, w.bench.plant.components[j]? = some (.semaphore name reason t) ∧
      t.maxConcurrency = s.maxConcurrency ∧
      t.remaining.toNat + r.rail.chain.count j * outstanding w hand = t.maxConcurrency.toNat ∧
      t.held.toNat = r.rail.chain.count j * outstanding w hand ∧
      t.held ≤ t.maxConcurrency := by
  have hbooks : w.Conserves rail i r.rail.chain j name reason s.maxConcurrency hand := by
    -- The books are right in the beginning, and no operation makes them wrong.
    induction hw with
    | start =>
      refine ⟨⟨?_, ⟨r, hr, rfl⟩, s, hs, rfl, ?_⟩, ?_, ?_, by simp⟩
      · intro k hk
        exact Except.ok.inj (hk.symm.trans hrail)
      · simp [Machine.unitsHeld, World.unitsHeld, hpromises, hcompletables, handUnits, hfull]
      · simp [hpromises]
      · simp [hcompletables]
    | perform _ op hop ih => exact ih.perform op hop
    | elsewhere _ hpromises hcompletables hnames hrails hsemaphores ih =>
      obtain ⟨⟨hfound, hplaced, t, ht, hmax, hsum⟩, hp, hc, ha⟩ := ih
      refine ⟨⟨?_, hrails ▸ hplaced, t, hsemaphores j _ _ t ht, hmax, ?_⟩, ?_, ?_, ha⟩
      · intro k hk
        rw [Bench.find, Bench.lookup, hnames] at hk
        exact hfound k hk
      · rw [Machine.unitsHeld, World.unitsHeld] at hsum ⊢
        rwa [hpromises, hcompletables]
      · rwa [hpromises]
      · rwa [hcompletables]
  -- What is taken from the semaphore is read off the books.
  obtain ⟨⟨-, -, t, ht, hmax, hsum⟩, -, -, -⟩ := hbooks
  have hsum' : t.remaining.toNat + r.rail.chain.count j * outstanding w hand =
      t.maxConcurrency.toNat := by
    rw [hmax, ← hsum]
    simp [outstanding, Machine.unitsHeld]
  have hheld : t.held.toNat = r.rail.chain.count j * outstanding w hand := by
    rw [Semaphore.held, subSat_toNat]
    omega
  refine ⟨t, ht, hmax, hsum', hheld, ?_⟩
  rw [UInt64.le_iff_toNat_le]
  omega

end Operations

/-- A world with one guard rail, in whose chain a semaphore stands before and after a rate
limiter. -/
def sharedWorld : World ActionResult where
  bench := {
    names := [("rail", .rail 0)]
    rails := #[{
      rail := {
        name := "rail"
        chain := [0, 1, 0]
        observers := []
        results := 0
        rollingLatency := none
        intervalLatency := none
        rejections := .empty ⟨4, 250, 0, by decide, by decide⟩ }
      clock := none }]
    plant := {
      components := #[.semaphore "permits" .maxConcurrency ⟨5, 5⟩,
        .limiter "rate" .rateLimited { allowed := 9, period := 1000, count := 0, deadline := 1000 }]
      results := #[]
      rollingLatencies := #[]
      intervalLatencies := #[]
      notes := [] } }

/-- A unit is held by hand and one by a promise; a third is refused where the semaphore stands for
the second time. The promise times out and is cancelled in vain, so that one unit is outstanding. -/
theorem permits_conserved_shared :
    ∃ w hand, Handling "rail" sharedWorld w hand ∧ outstanding w hand = 1 ∧
      ∃ t, w.bench.plant.components[0]? = some (.semaphore "permits" .maxConcurrency t) ∧
        t.remaining.toNat = 3 ∧ t.held.toNat = 2 := by
  have hstart : Handling "rail" sharedWorld sharedWorld [] := .start
  have hw := ((((hstart.perform (.acquire 1 0) trivial).perform (.promise 1 0 "action")
    trivial).perform (.acquire 1 0) trivial).perform (.settle "action" .timeout) trivial).perform
    (.settle "action" .cancelled) trivial
  have hr : sharedWorld.bench.rails[0]? = some _ := rfl
  have hs : sharedWorld.bench.plant.components[0]? =
      some (.semaphore "permits" .maxConcurrency ⟨5, 5⟩) := rfl
  obtain ⟨t, ht, hmax, hsum, hheld, -⟩ := permits_conserved rfl hr rfl rfl hs rfl hw
  refine ⟨_, _, hw, rfl, t, ht, ?_, ?_⟩
  · rw [hmax] at hsum
    change t.remaining.toNat + 2 * 1 = 5 at hsum
    omega
  · exact hheld

end Admission.Scenario
