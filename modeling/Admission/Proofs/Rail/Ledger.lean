import Admission.Proofs.Rail.Operations
import Admission.Proofs.Rail.Records
import Admission.Proofs.Scenario.Names

/-!
# The ledgers of a guard rail balance

While a guard rail is used, every operation brings about at most one event: a request is admitted or
refused, permits come back with an outcome or unused, by hand or because a completion won. What the
guard rail has recorded follows from these events, and so do the units that are still held. All that
was admitted came back with an outcome, came back unused, or is outstanding.

## Main definitions

* `World.recording?`: what a completion gives back
* `RailOp.events`, `RailOp.isRecorded`: the event that an operation brings about, and whether it is
  a return with an outcome, told by its reply
* `World.Balances`: the records follow from the events, and the units add up
* `Tracked`: a guard rail in use, with the units that are held by hand and the events so far

## Main results

* `World.Balances.perform`: every operation keeps the ledgers in balance
* `Tracked.balances`: so they are in balance after all operations
* `ledgers_balance`: what this means for the counts and latencies
-/

namespace Admission.Scenario

open RailEvent (admittedUnits recordedUnits unusedUnits recordings refusals)

variable {O : Type} [Outcome O]

/-! ## Records on the bench -/

namespace Bench

/-- The records of the guard rail at a place. -/
def records? (b : Bench O) (i : Nat) : Option (RailRecords O Rejection) :=
  b.rails[i]?.map fun r => r.rail.records b.plant

variable (b : Bench O) (i : Nat) (units now : UInt64)

theorem getElem?_setIfInBounds_of_eq_some {r : PlacedRail O} (hr : b.rails[i]? = some r)
    (q : PlacedRail O) : (b.rails.setIfInBounds i q)[i]? = some q :=
  Array.getElem?_setIfInBounds_self_of_lt (Array.getElem?_eq_some_iff.mp hr).1

theorem records?_acquireFrom :
    (b.acquireFrom i units now).2.records? i = (b.records? i).map
      (·.after [GuardRail.answerEvent units now (b.acquireFrom i units now).1]) := by
  unfold acquireFrom
  cases hr : b.rails[i]? with
  | none => simp [records?, hr]
  | some r =>
    dsimp only
    rw [records?, records?, getElem?_setIfInBounds_of_eq_some b i hr, hr]
    exact congrArg some (r.rail.records_acquire units now b.plant)

theorem records?_releaseTo (outcome : O) (start : UInt64) :
    (b.releaseTo i units outcome start now).records? i =
      (b.records? i).map (·.after [.recorded ⟨units, outcome, start, now⟩]) := by
  unfold releaseTo
  cases hr : b.rails[i]? with
  | none => simp [records?, hr]
  | some r =>
    dsimp only
    rw [records?, records?, getElem?_setIfInBounds_of_eq_some b i hr, hr]
    exact congrArg some (r.rail.records_release units now b.plant outcome start)

theorem records?_releaseUnused {r : PlacedRail O} (hr : b.rails[i]? = some r) :
    ({ b with plant := r.rail.releaseUnused units now b.plant } : Bench O).records? i =
      (b.records? i).map (·.after [.unused units]) := by
  rw [records?, records?]
  dsimp only
  rw [hr]
  exact congrArg some (r.rail.records_releaseUnused units now b.plant)

end Bench

/-! ## Events -/

/-- What a completion of a holder gives back: the permits that it stores, at the time of the clock
that goes with them. -/
def World.recording? (w : World O) (h : Holder) (outcome : O) : Option (Recording O) :=
  ((w.standing? h).bind (·.permits)).map fun p =>
    ⟨p.units, outcome, p.start, w.releaseTime p.release⟩

namespace RailOp

/-- What the reply to a request tells. -/
def requestEvents (units now : UInt64) : Reply O → List (RailEvent O Rejection)
  | .ok .nothing => [.admitted units]
  | .ok (.text reason) => ((MetricKey.ofName? reason).map fun r => .refused ⟨r, units, now⟩).toList
  | _ => []

/-- What the reply to a completion tells. -/
def completionEvents (w : World O) (holder : Except Fault Holder) (outcome : O) :
    Reply O → List (RailEvent O Rejection)
  | .ok (.truth true) => match holder with
    | .ok h => ((w.recording? h outcome).map .recorded).toList
    | .error _ => []
  | _ => []

/-- What an operation brought about, told by its reply. Of a completion the reply tells only whether
it won; what it gave back was stored before. -/
def events (w : World O) (reply : Reply O) : RailOp O → List (RailEvent O Rejection)
  | acquire units now => requestEvents units now reply
  | promise units now _ => requestEvents units now reply
  | completable units now _ => requestEvents units now reply
  | release units outcome start now => match reply with
    | .ok _ => [.recorded ⟨units, outcome, start, now⟩]
    | .error _ => []
  | releaseUnused units _ => match reply with
    | .ok _ => [.unused units]
    | .error _ => []
  | settle id c => completionEvents w ((w.findPromise id).map .promise) c.outcome reply
  | complete id c => completionEvents w ((w.findCompletable id).map .completable) c.outcome reply

/-- Whether an operation gave permits back with an outcome, told by its reply. -/
def isRecorded (reply : Reply O) : RailOp O → Bool
  | release _ _ _ _ => match reply with
    | .ok _ => true
    | .error _ => false
  | settle _ _ => match reply with
    | .ok (.truth won) => won
    | _ => false
  | complete _ _ => match reply with
    | .ok (.truth won) => won
    | _ => false
  | _ => false

omit [Outcome O] in
theorem requestEvents_refusal (units now : UInt64) (answer : Option Rejection) :
    requestEvents (O := O) units now (.ok (.refusal answer)) =
      [GuardRail.answerEvent units now answer] := by
  rcases answer with _ | reason
  · rfl
  · cases reason <;> rfl

omit [Outcome O] in
theorem recordings_requestEvents (units now : UInt64) (reply : Reply O) :
    recordings (requestEvents units now reply) = [] := by
  unfold requestEvents
  split
  · rfl
  · rename_i reason
    cases MetricKey.ofName? (K := Rejection) reason <;> rfl
  · rfl

theorem recordings_completionEvents (w : World O) (holder : Except Fault Holder) (outcome : O)
    {reply : Reply O} (hlost : reply ≠ .ok (.truth true)) :
    recordings (completionEvents w holder outcome reply) = [] := by
  unfold completionEvents
  split
  · exact absurd rfl hlost
  · rfl

/-- Only an operation that gave permits back with an outcome leaves such a return behind. -/
theorem recordings_events (op : RailOp O) (w : World O) {reply : Reply O}
    (h : op.isRecorded reply = false) : recordings (op.events w reply) = [] := by
  cases op with
  | acquire units now => exact recordings_requestEvents units now reply
  | promise units now as => exact recordings_requestEvents units now reply
  | completable units now as => exact recordings_requestEvents units now reply
  | release units outcome start now =>
    cases reply with
    | ok _ => cases h
    | error _ => rfl
  | releaseUnused units now => cases reply <;> rfl
  | settle id c =>
    refine recordings_completionEvents w _ _ ?_
    rintro rfl
    cases h
  | complete id c =>
    refine recordings_completionEvents w _ _ ?_
    rintro rfl
    cases h

/-- A completion that wins gives back what its holder stores. -/
theorem completionEvents_of_standing {w : World O} {h : Holder} {i : Nat} {s : Standing O}
    (hs : w.standing? h = some s) (hrail : ∀ q, s.permits = some q → q.release = .rail i)
    (outcome : O) :
    completionEvents w (.ok h) outcome (.ok (.truth true)) = (s.permits.map fun p =>
      .recorded ⟨p.units, outcome, p.start, w.releaseTime (.rail i)⟩).toList := by
  rw [completionEvents, World.recording?, hs, Option.bind_some]
  cases hpermits : s.permits with
  | none => rfl
  | some p =>
    rw [← hrail p hpermits]
    rfl

/-- Without an answer nothing is brought about, and nothing is held or given back by hand. -/
theorem of_error (op : RailOp O) (w : World O) (hand : List UInt64) (e : Fault) :
    op.events w (.error e) = [] ∧ op.handAfter (.error e) hand = hand := by
  cases op <;> exact ⟨rfl, rfl⟩

end RailOp

/-! ## Balance -/

/-- The records of a guard rail follow from events, all permits that are held by promises and
completables go back to it, and what was admitted came back with an outcome, came back unused, or is
outstanding. -/
structure World.Balances (w : World O) (rail : String) (i : Nat) (first : RailRecords O Rejection)
    (hand : List UInt64) (events : List (RailEvent O Rejection)) : Prop where
  found : ∀ k, w.findRail rail = .ok k → k = i
  records : w.bench.records? i = some (first.after events)
  promises : ∀ (k : Nat) (p : ScenarioPromise O), w.promises[k]? = some p → Machine.Plain i p
  completables : ∀ (k : Nat) (p : ScenarioCompletable O), w.completables[k]? = some p →
    ∀ q, p.permits = some q → q.release = .rail i
  balance : admittedUnits events = recordedUnits events + unusedUnits events + outstanding w hand

omit [Outcome O] in
theorem handUnits_toList_append (permits : Option (Permits (Release O))) (hand : List UInt64) :
    handUnits ((permits.map (·.units)).toList ++ hand) = unitsOf permits + handUnits hand := by
  cases permits with
  | none => exact (Nat.zero_add _).symm
  | some p => exact List.sum_cons

/-- A name that is given to an object of another kind leads to no guard rail. -/
theorem World.findRail_of_bind {w : World O} {id : String} {handle : Handle}
    (hkind : ∀ k, handle ≠ .rail k) {rail : String} {k : Nat}
    (h : (w.bind id handle).findRail rail = .ok k) : w.findRail rail = .ok k := by
  change (w.bench.bind id handle).find rail _ = _ at h
  by_cases hid : rail = id
  · subst hid
    rw [Bench.find, Bench.lookup_bind_self] at h
    cases handle with
    | rail l => exact absurd rfl (hkind l)
    | _ => cases h
  · rwa [Bench.find, Bench.lookup_bind_of_ne w.bench handle hid] at h

namespace World.Balances

variable {v w : World O} {rail : String} {i : Nat} {first : RailRecords O Rejection}
  {hand more : List UInt64} {events : List (RailEvent O Rejection)}

/-- Only the promises and completables, the names and the records of the guard rail matter. -/
theorem congr (h : w.Balances rail i first hand events) (hpromises : v.promises = w.promises)
    (hcompletables : v.completables = w.completables) (hnames : v.bench.names = w.bench.names)
    (hrecords : v.bench.records? i = w.bench.records? i) :
    v.Balances rail i first hand events := by
  refine ⟨?_, hrecords ▸ h.records, hpromises ▸ h.promises, hcompletables ▸ h.completables, ?_⟩
  · rw [findRail_congr hnames]
    exact h.found
  · rw [outstanding, unitsHeld, hpromises, hcompletables]
    exact h.balance

theorem of_alike (h : w.Balances rail i first hand events) (ha : v.Alike w) :
    v.Balances rail i first hand events :=
  h.congr ha.promises ha.completables (by rw [ha.bench]) (by rw [ha.bench])

/-- What happens on the bench is one more event, which moves units out of the hand or into it. -/
theorem collected (h : w.Balances rail i first hand events) {b : Bench O}
    (hnames : b.names = w.bench.names) {event : RailEvent O Rejection}
    (hrecords : b.records? i = (w.bench.records? i).map (·.after [event]))
    (hunits : admittedUnits [event] + handUnits hand =
      recordedUnits [event] + unusedUnits [event] + handUnits more) :
    (w.collected b).Balances rail i first more (events ++ [event]) := by
  refine ⟨?_, ?_, h.promises, h.completables, ?_⟩
  · rw [findRail_congr (w := w) hnames]
    exact h.found
  · change b.records? i = _
    rw [hrecords, h.records, RailRecords.after_append]
    rfl
  · have hbalance := h.balance
    have hheld : outstanding (w.collected b) more = w.unitsHeld + handUnits more := rfl
    rw [RailEvent.admittedUnits_append, RailEvent.recordedUnits_append,
      RailEvent.unusedUnits_append, hheld]
    rw [outstanding] at hbalance
    omega

/-- A new promise takes its units out of the hand. -/
theorem addPromise {units : UInt64}
    (h : w.Balances rail i first (units :: hand) events) (as : String)
    (start : UInt64) :
    (w.addPromise as (some ⟨units, start, .rail i⟩)).Balances rail i first hand events := by
  have hfound (k : Nat)
      (hk : World.findRail (w.addPromise as (some ⟨units, start, .rail i⟩)) rail = .ok k) : k = i :=
    h.found k (findRail_of_bind (fun _ => by rintro ⟨⟩) hk)
  refine ⟨hfound, h.records, ?_, h.completables, ?_⟩
  · exact forall_push h.promises (Machine.plain_pending i units start)
  · rw [h.balance, outstanding, outstanding, unitsHeld_addPromise, handUnits, List.map_cons,
      List.sum_cons, handUnits, unitsOf]
    simp only [Option.map_some, Option.getD_some]
    omega

theorem addCompletable {units : UInt64} (h : w.Balances rail i first (units :: hand) events)
    (as : String) (start : UInt64) :
    (w.addCompletable as (some ⟨units, start, .rail i⟩)).Balances rail i first hand events := by
  have hfound (k : Nat)
      (hk : World.findRail (w.addCompletable as (some ⟨units, start, .rail i⟩)) rail = .ok k) :
        k = i :=
    h.found k (findRail_of_bind (fun _ => by rintro ⟨⟩) hk)
  refine ⟨hfound, h.records, h.promises, ?_, ?_⟩
  · refine forall_push h.completables ?_
    rintro p ⟨⟩
    rfl
  · rw [h.balance, outstanding, outstanding, unitsHeld_addCompletable, handUnits, List.map_cons,
      List.sum_cons, handUnits, unitsOf]
    simp only [Option.map_some, Option.getD_some]
    omega

/-! ## Operations -/

/-- An operation, told by its reply, keeps the ledgers in balance. -/
def After (w : World O) (rail : String) (i : Nat) (first : RailRecords O Rejection)
    (hand : List UInt64) (events : List (RailEvent O Rejection)) (op : RailOp O) : Prop :=
  (w.perform (op.command rail)).2.Balances rail i first
    (op.handAfter (w.perform (op.command rail)).1 hand)
    (events ++ op.events w (w.perform (op.command rail)).1)

theorem After.of_reply {op : RailOp O} {reply : Reply O}
    (hop : (w.perform (op.command rail)).1 = reply ∧ (w.perform (op.command rail)).2.Alike v)
    (hv : v.Balances rail i first (op.handAfter reply hand) (events ++ op.events w reply)) :
    After w rail i first hand events op := by
  rw [After, hop.1]
  exact hv.of_alike hop.2

/-- Without an answer nothing has happened. -/
theorem After.of_error (h : w.Balances rail i first hand events) {op : RailOp O} {e : Fault}
    (hstart : ({ world := w, agenda := [] } : Machine O).start (op.command rail) =
      ({ world := w, agenda := [] } : Machine O).answer (.error e)) :
    After w rail i first hand events op := by
  obtain ⟨hevents, hhand⟩ := op.of_error w hand e
  refine .of_reply (perform_of_start hstart) ?_
  rwa [hevents, hhand, List.append_nil]

/-- A request with any answer: what is granted is held by hand at first. -/
theorem acquired (h : w.Balances rail i first hand events) (units now : UInt64) :
    (w.collected (w.bench.acquireFrom i units now).2).Balances rail i first
      ((RailOp.acquire (O := O) units now).handAfter
        (.ok (.refusal (w.bench.acquireFrom i units now).1)) hand)
      (events ++ [GuardRail.answerEvent units now (w.bench.acquireFrom i units now).1]) := by
  have hrecords := w.bench.records?_acquireFrom i units now
  have hnames := Bench.names_acquireFrom w.bench i units now
  generalize w.bench.acquireFrom i units now = answer at *
  obtain ⟨_ | reason, b⟩ := answer
  · refine h.collected hnames hrecords ?_
    change units.toNat + handUnits hand = 0 + 0 + (units.toNat + handUnits hand)
    omega
  · exact h.collected hnames hrecords rfl

theorem acquire (h : w.Balances rail i first hand events) (units now : UInt64) :
    After w rail i first hand events (.acquire units now) := by
  cases hfound : w.findRail rail with
  | error e => exact .of_error h (by rw [RailOp.command, Machine.start_acquire, hfound]; rfl)
  | ok k =>
    obtain rfl := h.found k hfound
    refine .of_reply (perform_acquire hfound units now) ?_
    rw [RailOp.events, RailOp.requestEvents_refusal]
    exact h.acquired units now

/-- A request whose permits something takes over, which holds them from then on. -/
theorem withPermits (h : w.Balances rail i first hand events) {op : RailOp O} {units now : UInt64}
    {f : Permits (Release O) → World O → World O}
    (hstart : ({ world := w, agenda := [] } : Machine O).start (op.command rail) =
      ({ world := w, agenda := [] } : Machine O).withPermits rail units now false f)
    (hevents : ∀ reply, op.events w reply = RailOp.requestEvents units now reply)
    (hhand : ∀ reply, op.handAfter reply hand = hand)
    (hf : ∀ (v : World O) (told : List (RailEvent O Rejection)),
      v.Balances rail i first (units :: hand) told →
        (f ⟨units, now, .rail i⟩ v).Balances rail i first hand told) :
    After w rail i first hand events op := by
  cases hfound : w.findRail rail with
  | error e => exact .of_error h (by rw [hstart, Machine.withPermits_eq, hfound]; rfl)
  | ok k =>
    obtain rfl := h.found k hfound
    have hacquired := h.acquired units now
    have hop := perform_withPermits hfound f hstart
    generalize w.bench.acquireFrom k units now = answer at *
    refine .of_reply hop ?_
    rw [hevents, hhand, RailOp.requestEvents_refusal]
    obtain ⟨_ | reason, b⟩ := answer
    · exact hf _ _ hacquired
    · exact hacquired

theorem release (h : w.Balances rail i first hand events) {units : UInt64} (hunits : units ∈ hand)
    (outcome : O) (start now : UInt64) :
    After w rail i first hand events (.release units outcome start now) := by
  cases hfound : w.findRail rail with
  | error e => exact .of_error h (by rw [RailOp.command, Machine.start_release, hfound]; rfl)
  | ok k =>
    obtain rfl := h.found k hfound
    refine .of_reply (perform_release hfound units outcome start now) ?_
    refine h.collected (Bench.names_releaseTo ..) (w.bench.records?_releaseTo ..) ?_
    change 0 + handUnits hand = units.toNat + 0 + 0 + handUnits (hand.erase units)
    rw [← handUnits_erase hunits]
    omega

theorem releaseUnused (h : w.Balances rail i first hand events) {units : UInt64}
    (hunits : units ∈ hand) (now : UInt64) :
    After w rail i first hand events (.releaseUnused units now) := by
  cases hfound : w.findRail rail with
  | error e => exact .of_error h (by rw [RailOp.command, Machine.start_releaseUnused, hfound]; rfl)
  | ok k =>
    obtain rfl := h.found k hfound
    obtain ⟨r, hr, -⟩ := Option.map_eq_some_iff.mp h.records
    refine .of_reply (perform_releaseUnused hfound hr units now) ?_
    refine h.collected (b := { w.bench with plant := r.rail.releaseUnused units now w.bench.plant })
      rfl (w.bench.records?_releaseUnused k units now hr) ?_
    change 0 + handUnits hand = 0 + (units.toNat + 0) + handUnits (hand.erase units)
    rw [← handUnits_erase hunits]
    omega

/-- What takes the place of a promise may hold less, if the rest is in the hand. -/
theorem storePromise (h : w.Balances rail i first hand events) {k : Nat} {p q : ScenarioPromise O}
    (hp : w.promises[k]? = some p) (hplain : Machine.Plain i q)
    (hunits : handUnits more + promiseUnits q = handUnits hand + promiseUnits p) :
    (w.storePromise k q).Balances rail i first more events := by
  refine ⟨h.found, h.records, forall_setIfInBounds h.promises hplain, h.completables, ?_⟩
  have hheld := unitsHeld_storePromise (q := q) hp
  rw [h.balance, outstanding, outstanding]
  omega

theorem storeCompletable (h : w.Balances rail i first hand events) {k : Nat}
    {p q : ScenarioCompletable O} (hp : w.completables[k]? = some p)
    (hrelease : ∀ r, q.permits = some r → r.release = .rail i)
    (hunits : handUnits more + completableUnits q = handUnits hand + completableUnits p) :
    ({ w with completables := w.completables.setIfInBounds k q } : World O).Balances
      rail i first more events := by
  refine ⟨h.found, h.records, h.promises, forall_setIfInBounds h.completables hrelease, ?_⟩
  have hheld := sum_setIfInBounds completableUnits q hp
  rw [h.balance, outstanding, outstanding, unitsHeld, unitsHeld]
  dsimp only
  omega

/-- Permits in the hand go back with an outcome. -/
theorem returned {permits : Option (Permits (Release O))}
    (h : w.Balances rail i first ((permits.map (·.units)).toList ++ hand) events) (outcome : O) :
    (w.returned i permits outcome).Balances rail i first hand (events ++ (permits.map fun p =>
      RailEvent.recorded ⟨p.units, outcome, p.start, w.releaseTime (.rail i)⟩).toList) := by
  cases permits with
  | none => exact (List.append_nil events).symm ▸ h
  | some p =>
    refine h.collected (Bench.names_releaseTo ..) (w.bench.records?_releaseTo ..) ?_
    change 0 + handUnits (p.units :: hand) = p.units.toNat + 0 + 0 + handUnits hand
    rw [handUnits, List.map_cons, List.sum_cons, handUnits]
    omega

/-- An attempt to complete a promise. -/
theorem settle (h : w.Balances rail i first hand events) (id : String) (c : Completion O) :
    After w rail i first hand events (.settle id c) := by
  cases hid : w.findPromise id with
  | error e => exact .of_error h (by rw [RailOp.command, Machine.start, hid]; rfl)
  | ok k =>
    by_cases hpending : w.IsPending (.promise k)
    · obtain ⟨p, hp, hnone⟩ := isPending_promise_iff.mp hpending
      have hplain := h.promises k p hp
      have hs : w.standing? (.promise k) = some (promiseStanding p) := by
        rw [standing?, hp, Option.map_some]
      refine .of_reply (perform_settle hid hp hnone hplain c) ?_
      rw [RailOp.events, hid, Except.map, RailOp.completionEvents_of_standing hs hplain.permits,
        ← returned_storePromise]
      refine (h.storePromise hp ?_ ?_).returned c.outcome
      · exact ⟨hplain.permits, hplain.wakers, hplain.listeners, hplain.links⟩
      · -- The units that the promise held are in the hand until they go back.
        rw [handUnits_toList_append, promiseUnits, promiseUnits, Promise.isDone,
          Promise.isDone, hnone]
        exact Nat.add_comm (unitsOf p.permits) (handUnits hand)
    · refine .of_reply (perform_settle_done hid hpending c) ?_
      have hnone : (RailOp.settle id c).events w (.ok (.truth false)) = [] := rfl
      rwa [hnone, List.append_nil]

/-- An attempt to complete a completable. -/
theorem complete (h : w.Balances rail i first hand events) (id : String) (c : Completion O) :
    After w rail i first hand events (.complete id c) := by
  cases hid : w.findCompletable id with
  | error e => exact .of_error h (by rw [RailOp.command, Machine.start, hid]; rfl)
  | ok k =>
    by_cases hpending : w.IsPending (.completable k)
    · obtain ⟨p, hp, hdone⟩ := isPending_completable_iff.mp hpending
      have hrelease := h.completables k p hp
      have hs : w.standing? (.completable k) = some (completableStanding p) := by
        rw [standing?, hp, Option.map_some]
      have hover :
        Completable.isDone ({ p with status := c.status } : ScenarioCompletable O) = true :=
        Completion.status_isTerminal c
      refine .of_reply (perform_complete hid hp hdone hrelease c) ?_
      rw [RailOp.events, hid, Except.map, RailOp.completionEvents_of_standing hs hrelease,
        ← returned_storeCompletable]
      refine (h.storeCompletable (q := { p with status := c.status }) hp hrelease ?_).returned
        c.outcome
      rw [handUnits_toList_append, completableUnits, completableUnits, hdone, hover]
      exact Nat.add_comm (unitsOf p.permits) (handUnits hand)
    · refine .of_reply (perform_complete_done hid hpending c) ?_
      have hnone : (RailOp.complete id c).events w (.ok (.truth false)) = [] := rfl
      rwa [hnone, List.append_nil]

/-- **Every operation keeps the ledgers in balance.** -/
theorem perform (h : w.Balances rail i first hand events) (op : RailOp O) (hop : op.Matched hand) :
    After w rail i first hand events op := by
  cases op with
  | acquire units now => exact h.acquire units now
  | promise units now as =>
    exact h.withPermits (f := fun permits w => w.addPromise as (some permits)) rfl (fun _ => rfl)
      (fun _ => rfl) fun v _ hv => hv.addPromise as now
  | completable units now as =>
    exact h.withPermits (f := fun permits w =>
      w.addCompletable as (some permits)) rfl (fun _ => rfl)
      (fun _ => rfl) fun v _ hv => hv.addCompletable as now
  | release units outcome start now => exact h.release hop outcome start now
  | releaseUnused units now => exact h.releaseUnused hop now
  | settle id c => exact h.settle id c
  | complete id c => exact h.complete id c

end World.Balances

/-- A guard rail in use, with the units that are held by hand and all that has concerned it.
Meanwhile anything may happen that leaves the promises and completables, the names and the records
of the guard rail as they are. -/
inductive Tracked (rail : String) (i : Nat) (start : World O) :
    World O → List UInt64 → List (RailEvent O Rejection) → Prop
  | start : Tracked rail i start start [] []
  | perform {w : World O} {hand : List UInt64} {events : List (RailEvent O Rejection)}
    (hw : Tracked rail i start w hand events) (op : RailOp O) (hop : op.Matched hand) :
    Tracked rail i start (w.perform (op.command rail)).2
      (op.handAfter (w.perform (op.command rail)).1 hand)
      (events ++ op.events w (w.perform (op.command rail)).1)
  | elsewhere {w v : World O} {hand : List UInt64} {events : List (RailEvent O Rejection)}
    (hw : Tracked rail i start w hand events)
    (hpromises : v.promises = w.promises) (hcompletables : v.completables = w.completables)
    (hnames : v.bench.names = w.bench.names) (hrecords : v.bench.records? i = w.bench.records? i) :
    Tracked rail i start v hand events

section

variable {start w : World O} {rail : String} {i : Nat} {first : RailRecords O Rejection}
  {hand : List UInt64} {events : List (RailEvent O Rejection)}

/-- The ledgers are in balance in the beginning, and stay so. -/
theorem Tracked.balances (hrail : start.findRail rail = .ok i)
    (hfirst : start.bench.records? i = some first) (hpromises : start.promises = #[])
    (hcompletables : start.completables = #[]) (hw : Tracked rail i start w hand events) :
    w.Balances rail i first hand events := by
  induction hw with
  | start =>
    refine ⟨?_, ?_, ?_, ?_, ?_⟩
    · intro k hk
      exact Except.ok.inj (hk.symm.trans hrail)
    · rw [hfirst, RailRecords.after_nil]
    · simp [hpromises]
    · simp [hcompletables]
    · rw [outstanding, World.unitsHeld, hpromises, hcompletables]
      rfl
  | perform _ op hop ih => exact ih.perform op hop
  | elsewhere _ hpromises hcompletables hnames hrecords ih =>
    exact ih.congr hpromises hcompletables hnames hrecords

/-- **The ledgers balance**: in a world that begins without promises and completables and with a
guard rail that has counted nothing, and after any operations on it in which what is returned by
hand was admitted before, refusals are counted by reason and returns by outcome, in units; what was
admitted came back with an outcome, came back unused, or is outstanding; and each latency recorder
was given one value for each return with an outcome, by hand or by a completion that won: how long
the permits were held. Whatever follows and is not such a return changes no result and no
latency. -/
theorem ledgers_balance [DecidableEq O] (hrail : start.findRail rail = .ok i)
    (hfirst : start.bench.records? i = some first) (hresults : first.resultTotals = .zero)
    (hrejections : first.rejectionTotals = .zero) (hpromises : start.promises = #[])
    (hcompletables : start.completables = #[]) (hw : Tracked rail i start w hand events)
    (hrefused : ∀ reason, Tally.amount ((refusals events).filter (·.key = reason)) < 2 ^ 64)
    (hadmitted : admittedUnits events < 2 ^ 64) :
    ∃ r, w.bench.records? i = some r ∧
      (∀ reason, (r.rejectionTotals.get reason).toNat =
        Tally.amount ((refusals events).filter (·.key = reason))) ∧
      (∀ outcome, (r.resultTotals.get outcome).toNat =
        Tally.amount (((recordings events).map Recording.tally).filter (·.key = outcome))) ∧
      admittedUnits events = r.resultTotals.total.toNat + unusedUnits events + outstanding w hand ∧
      r.rollingLatency = first.rollingLatency.map (fun l => (recordings events).foldl
        (fun l e => l.record e.outcome (subSat e.now e.start) e.now) l) ∧
      r.intervalLatency = first.intervalLatency.map (fun l => (recordings events).foldl
        (fun l e => l.record e.outcome (subSat e.now e.start)) l) ∧
      ∀ op : RailOp O, op.Matched hand → op.isRecorded (w.perform (op.command rail)).1 = false →
        ∃ s, (w.perform (op.command rail)).2.bench.records? i = some s ∧
          s.resultTotals = r.resultTotals ∧ s.results = r.results ∧
          s.rollingLatency = r.rollingLatency ∧ s.intervalLatency = r.intervalLatency := by
  have hbalances := hw.balances hrail hfirst hpromises hcompletables
  have hbalance := hbalances.balance
  have hrecorded : recordedUnits events < 2 ^ 64 := by omega
  refine ⟨first.after events, hbalances.records, ?_, ?_, ?_, rfl, rfl, ?_⟩
  · intro reason
    rw [RailRecords.get_rejectionTotals_after hrejections]
    exact UInt64.toNat_ofNat_of_lt' (hrefused reason)
  · intro outcome
    rw [RailRecords.get_resultTotals_after hresults]
    exact UInt64.toNat_ofNat_of_lt' ((Tally.amount_filter_le _ _).trans_lt hrecorded)
  · rw [RailRecords.total_resultTotals_after hresults, UInt64.toNat_ofNat_of_lt' hrecorded]
    exact hbalance
  · intro op hop hunrecorded
    have hnext := hbalances.perform op hop
    refine ⟨_, hnext.records, ?_⟩
    rw [RailRecords.after_append]
    exact RailRecords.results_after_of_recordings_eq_nil _ (op.recordings_events w hunrecorded)

end

/-- A world with one guard rail, which has a clock, a semaphore and both recorders of latencies. -/
def meteredWorld : World ActionResult where
  bench := {
    names := [("rail", .rail 0)]
    clocks := #[⟨9⟩]
    rails := #[{
      rail := {
        name := "rail"
        chain := [0]
        observers := []
        results := 0
        rollingLatency := some 0
        intervalLatency := some 0
        rejections := .empty ⟨16, 60, 0, by decide, by decide⟩ }
      clock := some 0 }]
    plant := {
      components := #[.semaphore "permits" .maxConcurrency ⟨5, 5⟩]
      results := #[.empty ⟨16, 60, 0, by decide, by decide⟩]
      rollingLatencies := #[.empty ⟨16, 60, 0, by decide, by decide⟩ 100]
      intervalLatencies := #[⟨100, { first := .empty 100, second := .empty 100 }⟩]
      notes := [] } }

/-- A unit is held by hand and two by a promise; nine more are refused. The promise times out when
the clock reads nine, which is one latency for two units, and is cancelled in vain. -/
theorem ledgers_balance_metered :
    ∃ w hand events r, Tracked "rail" 0 meteredWorld w hand events ∧ w.bench.records? 0 = some r ∧
      (r.rejectionTotals.get .maxConcurrency).toNat = 9 ∧ (r.resultTotals.get .timeout).toNat = 2 ∧
      admittedUnits events = 3 ∧ r.resultTotals.total.toNat = 2 ∧ outstanding w hand = 1 ∧
      (recordings events).map Recording.latency = [4] ∧
      ∃ s, (w.perform (.settle "action" .cancelled)).2.bench.records? 0 = some s ∧
        s.resultTotals = r.resultTotals ∧ s.intervalLatency = r.intervalLatency := by
  have hstart : Tracked "rail" 0 meteredWorld meteredWorld [] [] := .start
  have hw := (((hstart.perform (.acquire 1 0) trivial).perform (.promise 2 5 "action")
    trivial).perform (.acquire 9 6) trivial).perform (.settle "action" .timeout) trivial
  have hfirst : meteredWorld.bench.records? 0 = some _ := rfl
  obtain ⟨r, hr, hrejected, hresults, hbalance, -, -, hidle⟩ :=
    ledgers_balance rfl hfirst rfl rfl rfl
    rfl hw (fun reason => by cases reason <;> decide +kernel) (by decide +kernel)
  obtain ⟨s, hs, htotals, -, -, hinterval⟩ := hidle (.settle "action" .cancelled) trivial
    (by decide +kernel)
  refine ⟨_, _, _, r, hw, hr, (hrejected _).trans (by decide +kernel),
    (hresults _).trans (by decide +kernel), by decide +kernel, ?_, by decide +kernel,
    by decide +kernel, s, hs, htotals, hinterval⟩
  have hunits : r.resultTotals.total.toNat + 0 + 1 = 3 := hbalance.symm
  omega

end Admission.Scenario
