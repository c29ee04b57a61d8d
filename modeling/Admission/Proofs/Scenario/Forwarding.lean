import Admission.Proofs.Scenario.Accounts
import Admission.Proofs.Scenario.Settling
import Mathlib.Data.Finset.Range
import Mathlib.Logic.Relation

/-!
# Links carry completions

A promise forwards its completion along its links. The target is completed by that if it was
pending, and forwards the completion in turn, so the completion gets to every pending promise that
links lead to, be it through chains, diamonds or cycles, and to no other. A target that was
completed before stops it there: by then it has forwarded its own completion along all its links.

Where a completion has got to is an invariant of the call: each promise of the group stands as it
did when the call began, or it was pending, can be reached, and is completed likewise. That the
completion misses none of those is seen when the call returns, since nothing waits then with the
promises that it has completed.

## Main definitions

* `linked`, `forwarded`: the links of a promise, and those that its completion was forwarded along
* `Machine.Meddles`: what acts on promises of a group otherwise than by a link of one of them
* `Spread`: where a completion has got to
* `CompletedOnce`: a promise was completed, and its permits came back once

## Main results

* `Run.isSettled_of_forwarded`, `Run.linked_eq_forwarded`: what a completion was forwarded to is
  completed, and nothing is left out once a round is over
* `Spread.next`, `Run.spread`: the completion gets along links only
* `links_propagate`: the promises that a completion changes are those that were pending and that can
  be reached
-/

namespace Admission.Scenario

variable {O : Type} [Outcome O]

/-! ## Links -/

/-- The targets of the links that are registered with a promise, the earliest first. -/
def linked (i : Nat) (visited : List (Machine O)) : List Nat :=
  (registrations i visited).filterMap Callback.link?

/-- The targets that a promise has forwarded its completion to, the earliest first. -/
def forwarded (i : Nat) (visited : List (Machine O)) : List Nat :=
  ((calls i visited).map (·.1)).filterMap Callback.link?

/-- Nothing has been promised yet: nothing is to be done, there are no promises, and no name stands
for one. -/
structure Machine.Blank (m : Machine O) : Prop where
  agenda : m.agenda = []
  promises : m.world.promises = #[]
  names : ∀ id i, m.world.findPromise id ≠ .ok i

section Lists

variable {i j : Nat} {visited : List (Machine O)}

theorem mem_linked :
    j ∈ linked i visited ↔ ∃ m ∈ visited, m.registration? = some (i, .link j) := by
  simp only [linked, registrations, List.mem_filterMap, Option.map_eq_some_iff,
    Option.filter_eq_some_iff]
  constructor
  · rintro ⟨r, ⟨m, hm, ⟨i', r'⟩, ⟨hreg, hi⟩, rfl⟩, hr⟩
    cases r' with
    | listener l => cases hr
    | link j' =>
      cases hr
      obtain rfl := of_decide_eq_true hi
      exact ⟨m, hm, hreg⟩
  · rintro ⟨m, hm, hreg⟩
    exact ⟨.link j, ⟨m, hm, (i, .link j), ⟨hreg, by simp⟩, rfl⟩, rfl⟩

theorem mem_forwarded :
    j ∈ forwarded i visited ↔ ∃ m ∈ visited, ∃ c, m.call? = some (i, .link j, c) := by
  simp only [forwarded, calls, List.mem_filterMap, List.mem_map, Option.map_eq_some_iff,
    Option.filter_eq_some_iff]
  constructor
  · rintro ⟨r, ⟨⟨r', c⟩, ⟨m, hm, ⟨i', r'', c'⟩, ⟨hcall, hi⟩, heq⟩, rfl⟩, hr⟩
    cases heq
    cases r' with
    | listener l => cases hr
    | link j' =>
      cases hr
      obtain rfl := of_decide_eq_true hi
      exact ⟨m, hm, c, hcall⟩
  · rintro ⟨m, hm, c, hcall⟩
    exact ⟨.link j, ⟨(.link j, c), ⟨m, hm, (i, .link j, c), ⟨hcall, by simp⟩, rfl⟩, rfl⟩, rfl⟩

theorem linked_append (i : Nat) (visited later : List (Machine O)) :
    linked i (visited ++ later) = linked i visited ++ linked i later := by
  rw [linked, registrations_append, List.filterMap_append]
  rfl

end Lists

/-! ## What a run does to links -/

section Runs

variable {start m k n : Machine O} {i j : Nat} {c : Completion O} {visited : List (Machine O)}

namespace Machine.Blank

theorem phase (hstart : start.Blank) : ∀ i, Phase i start :=
  phase_of_new hstart.agenda hstart.promises

theorem sound (hstart : start.Blank) : start.world.Sound :=
  fun id i hi => absurd hi (hstart.names id i)

theorem tidy (hstart : start.Blank) : start.Tidy := Machine.tidy_of_agenda_eq_nil hstart.agenda

end Machine.Blank

/-- A link that is run is an attempt on its target. -/
theorem attempt?_of_call? (hcall : m.call? = some (i, .link j, c)) :
    ∃ won, m.attempt? = some ⟨.promise j, c, won⟩ := by
  obtain ⟨work, hwork, hcall⟩ := Option.bind_eq_some_iff.mp hcall
  obtain rfl := Work.eq_of_call? hcall
  rw [Machine.attempt?, hwork]
  exact ⟨_, rfl⟩

/-- A link that is run leaves its target completed. -/
theorem Next.isSettled_of_call? (hk : Next m k) (hcall : m.call? = some (i, .link j, c))
    (hj : (m.world.queue? j).isSome) : k.world.IsSettled (.promise j) := by
  by_cases hp : m.world.IsPending (.promise j)
  · obtain ⟨won, hattempt⟩ := attempt?_of_call? hcall
    obtain rfl : won = true := (won_of_attempt? hattempt).mpr hp
    exact hk.isSettled_of_won hattempt
  · -- The target is there, so it was completed before.
    obtain ⟨q, hq⟩ := Option.isSome_iff_exists.mp hj
    refine hk.isSettled (World.isSettled_iff_queue?.mpr ?_)
    cases hc : q.result with
    | none => exact absurd (World.isPending_iff_queue?.mpr ⟨q, hq, hc⟩) hp
    | some d => exact ⟨q, d, hq, hc⟩

/-- A target that a link is registered for is a promise. -/
theorem Run.isSome_of_linked (hstart : start.Blank) (hrun : Run start visited n)
    (hj : j ∈ linked i visited) : (n.world.queue? j).isSome := by
  obtain ⟨m, hm, hreg⟩ := mem_linked.mp hj
  obtain ⟨before, after, rfl⟩ := List.append_of_mem hm
  obtain ⟨hbefore, next, hnext, hafter⟩ := hrun.split
  have hphase := hbefore.phase hstart.phase
  have hsound := hbefore.sound hstart.phase hstart.sound
  exact (Run.next hnext hafter).isSome_queue? hphase (isSome_queue?_of_registration? hsound hreg)

/-- A link that is run was registered before. -/
theorem Run.mem_linked_of_call? (hstart : start.Blank) (hrun : Run start visited n)
    (hcall : n.call? = some (i, .link j, c)) : j ∈ linked i visited := by
  have hkind : OneKind (Callback.link? : Callback O → _) := Or.inl fun l => rfl
  have hwaiting : j ∈ (n.waiting i).filterMap Callback.link? := by
    refine List.mem_filterMap.mpr ⟨.link j, ?_, rfl⟩
    rw [Machine.waiting, (underway_of_call? hcall).2, taken_work_cons]
    exact List.mem_cons_self
  rw [linked, hrun.account hkind hstart.agenda hstart.promises i]
  exact List.mem_append_right _ hwaiting

/-- **What a completion was forwarded to is completed.** -/
theorem Run.isSettled_of_forwarded (hstart : start.Blank) (hrun : Run start visited n)
    (hj : j ∈ forwarded i visited) : n.world.IsSettled (.promise j) := by
  obtain ⟨m, hm, c, hcall⟩ := mem_forwarded.mp hj
  obtain ⟨before, after, rfl⟩ := List.append_of_mem hm
  obtain ⟨hbefore, next, hnext, hafter⟩ := hrun.split
  have hsome := hbefore.isSome_of_linked hstart (hbefore.mem_linked_of_call? hstart hcall)
  exact hafter.isSettled (hnext.isSettled_of_call? hcall hsome)

/-- **All links of a completed promise were forwarded** when nothing is underway for it. -/
theorem Run.linked_eq_forwarded (hstart : start.Blank) (hrun : Run start visited n)
    (hu : n.underway i = []) (hs : n.world.IsSettled (.promise i)) :
    linked i visited = forwarded i visited := by
  have hkind : OneKind (Callback.link? : Callback O → _) := Or.inl fun l => rfl
  have hnone : n.waiting i = [] := (hrun.phase hstart.phase i).waiting_eq_nil hu hs
  rw [linked, hrun.account hkind hstart.agenda hstart.promises i, hnone, List.filterMap_nil,
    List.append_nil]
  rfl

end Runs

/-! ## Groups of promises -/

/-- The next step acts on promises of a group otherwise than by a link of one of them: it panics,
which breaks off every call, it attempts to complete one of them that none of them forwards its
completion to, or it links one of them. -/
def Machine.Meddles (m : Machine O) (group : Finset Nat) : Prop :=
  m.panics = true ∨
    (∃ j ∈ group, m.attempt?.map (·.holder) = some (.promise j) ∧
      ∀ i ∈ group, j ∉ forwarded i [m]) ∨
    ∃ i ∈ group, linked i [m] ≠ []

instance (m : Machine O) (group : Finset Nat) : Decidable (m.Meddles group) :=
  inferInstanceAs (Decidable (_ ∨ _ ∨ _))

/-- What is linked to a promise directly, within a group. -/
def LinkedIn (group : Finset Nat) (visited : List (Machine O)) (i j : Nat) : Prop :=
  j ∈ group ∧ j ∈ linked i visited

/-- Where a completion has got to in the middle of its call: a promise stands as it did when the
call began, or it was pending, is one of those that can be reached, and is completed likewise. -/
inductive Spread (reached : Nat → Prop) (c : Completion O) (k l : Machine O) (j : Nat) : Prop
  | same (s : Standing O) (hk : k.world.standing? (.promise j) = some s)
      (hl : l.world.standing? (.promise j) = some s)
  | completed (permits : Option (Permits (Release O))) (hreached : reached j)
      (hk : k.world.standing? (.promise j) = some (.pending permits))
      (hl : l.world.standing? (.promise j) = some ((Holder.promise j).settled permits c))

section Groups

variable {start m k l n : Machine O} {i j p : Nat} {c : Completion O}
  {past hist visited : List (Machine O)} {group : Finset Nat}

/-- What does not meddle completes a promise of the group by a link of another only. -/
theorem exists_call_of_not_meddles (hnot : ¬ m.Meddles group) (hj : j ∈ group) {won : Bool}
    (hattempt : m.attempt? = some ⟨.promise j, c, won⟩) :
    ∃ i ∈ group, m.call? = some (i, .link j, c) := by
  have hforwards : ∃ i ∈ group, j ∈ forwarded i [m] := by
    by_contra hnone
    refine hnot (Or.inr (Or.inl ⟨j, hj, by rw [hattempt]; rfl, fun i hi hforwarded => ?_⟩))
    exact hnone ⟨i, hi, hforwarded⟩
  obtain ⟨i, hi, hforwarded⟩ := hforwards
  obtain ⟨m', hm', d, hcall⟩ := mem_forwarded.mp hforwarded
  obtain rfl := List.mem_singleton.mp hm'
  obtain ⟨won', hsame⟩ := attempt?_of_call? hcall
  rw [hattempt] at hsame
  cases hsame
  exact ⟨i, hi, hcall⟩

theorem linked_of_not_meddles (hnot : ¬ m.Meddles group) (hi : i ∈ group) : linked i [m] = [] := by
  by_contra hne
  exact hnot (Or.inr (Or.inr ⟨i, hi, hne⟩))

/-- The completion of a promise is forwarded to where it was linked before, so this is how far it
gets by one step. -/
theorem Spread.next (hstart : start.Blank) (hpast : Run start past k) (hhist : Run start hist l)
    (hlinks : ∀ i ∈ group, linked i hist = linked i past)
    (hforwarded : ∀ i ∈ group, k.world.IsSettled (.promise i) → linked i past = forwarded i past)
    (hl : ∀ j ∈ group, Spread (Relation.ReflTransGen (LinkedIn group past) p) c k l j)
    (hnot : ¬ l.Meddles group) (hn : Next l n) :
    ∀ j ∈ group, Spread (Relation.ReflTransGen (LinkedIn group past) p) c k n j := by
  intro j hj
  cases hl j hj with
  | completed permits hreached hkj hlj =>
    exact .completed permits hreached hkj (hn.standing_of_settled hlj (status_settled_ne _ _ _))
  | same s hkj hlj =>
    by_cases hwins : ∃ d, l.attempt? = some ⟨.promise j, d, true⟩
    · obtain ⟨d, hwon⟩ := hwins
      obtain ⟨permits, hpending⟩ := (won_of_attempt? hwon).mp rfl
      obtain rfl : s = .pending permits := Option.some.inj (hlj.symm.trans hpending)
      obtain ⟨i, hi, hcall⟩ := exists_call_of_not_meddles hnot hj hwon
      have hlinked : j ∈ linked i past := hlinks i hi ▸ hhist.mem_linked_of_call? hstart hcall
      obtain ⟨q, hq, hd⟩ := (hhist.phase hstart.phase i).of_call? hcall
      have hresult : l.world.result? i = some d := World.result?_eq_some_iff.mpr ⟨q, hq, hd⟩
      -- The promise that forwards was not completed before, or this one would have been, too.
      cases hl i hi with
      | same s hki hli =>
        have hsettled : k.world.IsSettled (.promise i) := by
          obtain ⟨s', hs', hne⟩ := World.isSettled_iff_queue?.mpr ⟨q, d, hq, hd⟩
          obtain rfl : s = s' := Option.some.inj (hli.symm.trans hs')
          exact ⟨s, hki, hne⟩
        rw [hforwarded i hi hsettled] at hlinked
        have hkp : k.world.IsPending (.promise j) := ⟨permits, hkj⟩
        exact absurd (hpast.isSettled_of_forwarded hstart hlinked) hkp.not_isSettled
      | completed permits' hreached hki hli =>
        have hsame : l.world.result? i = some c := by rw [World.result?_eq, hli]; rfl
        obtain rfl : d = c := Option.some.inj (hresult.symm.trans hsame)
        exact .completed permits (hreached.tail ⟨hj, hlinked⟩) hkj (hn.of_won hwon hpending).1
    · exact .same s hkj (hn.standing hlj fun d hd => hwins ⟨d, hd⟩)

/-- The same for a run in which nothing meddles. -/
theorem Run.spread (hrun : Run l visited n) (hstart : start.Blank) (hpast : Run start past k)
    (hhist : Run start hist l) (hlinks : ∀ i ∈ group, linked i hist = linked i past)
    (hforwarded : ∀ i ∈ group, k.world.IsSettled (.promise i) → linked i past = forwarded i past)
    (hl : ∀ j ∈ group, Spread (Relation.ReflTransGen (LinkedIn group past) p) c k l j)
    (hnot : ∀ m ∈ visited, ¬ m.Meddles group) :
    ∀ j ∈ group, Spread (Relation.ReflTransGen (LinkedIn group past) p) c k n j := by
  induction hrun generalizing hist with
  | refl l => exact hl
  | @next l m n visited hm hrun ih =>
    obtain ⟨hfirst, hlater⟩ := List.forall_mem_cons.mp hnot
    refine ih (hhist.append (.next hm (.refl m))) ?_ ?_ hlater
    · intro i hi
      rw [linked_append, linked_of_not_meddles hfirst hi, List.append_nil]
      exact hlinks i hi
    · exact Spread.next hstart hpast hhist hlinks hforwarded hl hfirst hm

end Groups

/-! ## Closure -/

section Closure

variable {start k n : Machine O} {i j p : Nat} {c : Completion O}
  {past visited : List (Machine O)} {group : Finset Nat}

theorem releaseCalls_append (h : Holder) (visited later : List (Machine O)) :
    releaseCalls h (visited ++ later) = releaseCalls h visited ++ releaseCalls h later :=
  List.filterMap_append

/-- A promise that was pending is completed meanwhile, and its permits are returned once, with the
outcome. -/
def CompletedOnce (c : Completion O) (k : Machine O) (visited : List (Machine O)) (n : Machine O)
    (j : Nat) : Prop :=
  ∃ permits, k.world.standing? (.promise j) = some (.pending permits) ∧
    n.world.standing? (.promise j) = some ((Holder.promise j).settled permits c) ∧
    (releaseCalls (.promise j) visited).map (fun call => (call.permits, call.outcome)) =
      permits.toList.map fun permits => (permits, c.outcome)

/-- The permits come back in the middle of the call, since what is to be done after it is not about
promises that were pending. -/
theorem Run.completedOnce (hrun : Run k visited n) (hk : k.Tidy)
    (hrest : ∀ work ∈ n.agenda, work ∈ k.agenda) {permits : Option (Permits (Release O))}
    (hkj : k.world.standing? (.promise j) = some (.pending permits))
    (hnj : n.world.standing? (.promise j) = some ((Holder.promise j).settled permits c)) :
    CompletedOnce c k visited n j := by
  refine ⟨permits, hkj, hnj, ?_⟩
  have hpending : k.world.IsPending (.promise j) := ⟨permits, hkj⟩
  have hlast : releaseCalls (.promise j) [n] = [] := by
    rw [releaseCalls_cons_of_forall_ne]
    · rfl
    · intro call hcall
      obtain ⟨work, rest, hagenda, ho, -⟩ := Machine.exists_of_releaseCall? hcall
      exact hpending.not_isSettled (hk work (hrest work (hagenda ▸ List.mem_cons_self)) _ ho)
  cases course_of_isPending hrun hk hkj with
  | pending hattempts hquiet hstays =>
    have hnp := hstays n (List.mem_append_right visited List.mem_cons_self)
    rw [hnj] at hnp
    exact absurd (congrArg Standing.status (Option.some.inj hnp)) (status_settled_ne _ _ _)
  | settled before after first d hvisited hattempts hfirst hlost hquiet hreleased hstays hsettled =>
    have hnd := hsettled n (List.mem_append_right after List.mem_cons_self)
    rw [hnj] at hnd
    obtain rfl : c = d := Option.some.inj (congrArg Standing.result (Option.some.inj hnd))
    have hcut : visited = (before ++ [first]) ++ after := by rw [hvisited]; simp
    have hcalls : releaseCalls (.promise j) visited = releaseCalls (.promise j) (after ++ [n]) := by
      rw [hcut, releaseCalls_append _ (before ++ [first]), releaseCalls_eq_nil_of_quiet hquiet,
        releaseCalls_append, hlast, List.append_nil]
      rfl
    rw [hcalls, hreleased.map_eq]

/-- A call that is an attempt returns as well. -/
theorem exists_return_of_attempt? {a : Attempt O} (ha : k.attempt? = some a) :
    ∃ (visited : List (Machine O)) (count : Nat), Run k (k :: visited) (Machine.steps count k) ∧
      (∀ l ∈ visited, ∃ work more, l.agenda = work :: more ++ k.agenda.tail) ∧
      ((Machine.steps count k).agenda = k.agenda.tail ∨ (Machine.steps count k).panics = true) := by
  obtain ⟨work, rest, hk, -⟩ := agenda_of_attempt? ha
  have hne : k.agenda ≠ [] := by rw [hk]; exact List.cons_ne_nil _ _
  have hnext : Next k k.step := .step hne (panics_of_attempt? ha)
  have hcall : k.agenda = work :: [] ++ rest := hk
  obtain ⟨started, hstarted⟩ := hnext.within hcall
  obtain ⟨visited, count, hrun, hin, hend⟩ := exists_return hstarted
  rw [← Machine.steps_succ hne] at hrun hend
  rw [hk, List.tail_cons]
  exact ⟨visited, count + 1, .next hnext hrun, hin, hend⟩

/-- How far a completion has got when its call returns. -/
theorem Run.spread_of_won (hrun : Run k (k :: visited) n) (hstart : start.Blank)
    (hpast : Run start past k) (hwon : k.attempt? = some ⟨.promise p, c, true⟩)
    (hsize : ∀ j ∈ group, j < k.world.promises.size)
    (hforwarded : ∀ i ∈ group, k.world.IsSettled (.promise i) → linked i past = forwarded i past)
    (hnot : ∀ l ∈ visited, ¬ l.Meddles group) :
    ∀ j ∈ group, Spread (Relation.ReflTransGen (LinkedIn group past) p) c k n j := by
  cases hrun with
  | @next _ m _ _ hnext hrun =>
    refine hrun.spread hstart hpast (hpast.append (.next hnext (.refl m))) ?_ hforwarded ?_ hnot
    · intro i hi
      have hnone : linked i [k] = [] := by
        rw [linked, registrations_singleton_of_ne (by simp [registration?_of_attempt? hwon])]
        rfl
      rw [linked_append, hnone, List.append_nil]
    · intro j hj
      -- The attempt completes one promise and leaves all others alone.
      by_cases hjp : j = p
      · subst hjp
        obtain ⟨permits, hpending⟩ := (won_of_attempt? hwon).mp rfl
        exact .completed permits .refl hpending (hnext.of_won hwon hpending).1
      · obtain ⟨s, hkj⟩ : ∃ s, k.world.standing? (.promise j) = some s :=
          ⟨_, congrArg (Option.map promiseStanding) (Array.getElem?_eq_getElem (hsize j hj))⟩
        refine .same s hkj (hnext.standing hkj fun d hd => ?_)
        rw [hwon] at hd
        cases hd
        exact hjp rfl

/-- What can be reached is completed when the call returns. -/
theorem Run.isSettled_of_reached (hrun : Run k (k :: visited) n) (hstart : start.Blank)
    (hpast : Run start past k) (hwon : k.attempt? = some ⟨.promise p, c, true⟩)
    (hn : n.agenda = k.agenda.tail) (hp : p ∈ group)
    (hforwarded : ∀ i ∈ group, k.world.IsSettled (.promise i) → linked i past = forwarded i past)
    (hspread : ∀ j ∈ group, Spread (Relation.ReflTransGen (LinkedIn group past) p) c k n j)
    (hreached : Relation.ReflTransGen (LinkedIn group past) p j) :
    j ∈ group ∧ n.world.IsSettled (.promise j) := by
  induction hreached with
  | refl => exact ⟨hp, hrun.isSettled_of_won hwon⟩
  | @tail i j hpath hlinked ih =>
    obtain ⟨hj, hlinked⟩ := hlinked
    obtain ⟨hi, s, hni, hne⟩ := ih
    refine ⟨hj, ?_⟩
    cases hspread i hi with
    | same s' hki hni' =>
      -- It was completed before, so this link was forwarded before.
      obtain rfl : s = s' := Option.some.inj (hni.symm.trans hni')
      rw [hforwarded i hi ⟨s, hki, hne⟩] at hlinked
      exact hrun.isSettled (hpast.isSettled_of_forwarded hstart hlinked)
    | completed permits hreached hki hni' =>
      -- It is completed in this call, and nothing of its round is left when the call returns.
      have hu := (hpast.phase hstart.phase i).underway_of_tail ⟨permits, hki⟩ hn
      have hwhole := hpast.append hrun
      have hall := hwhole.linked_eq_forwarded hstart hu ⟨s, hni, hne⟩
      refine hwhole.isSettled_of_forwarded hstart (i := i) ?_
      rw [← hall, linked_append]
      exact List.mem_append_left _ hlinked

/-- **Links carry a completion to all that is reachable.** Between two commands, whatever a
completed promise was linked to is completed. A call that completes a promise returns unless
something panics, and if nothing else acts on a group of promises meanwhile, those that it changes
are those that were pending and that links lead to: they are completed likewise, and their permits
come back once. -/
theorem links_propagate (hstart : start.Blank) (hpast : Run start past k) :
    ((k.agenda = [] ∨ ∃ command, k.agenda = [.command command]) →
        ∀ i, k.world.IsSettled (.promise i) →
          linked i past = forwarded i past ∧ ∀ j ∈ linked i past, k.world.IsSettled (.promise j)) ∧
      ∀ (p : Nat) (c : Completion O), k.attempt? = some ⟨.promise p, c, true⟩ →
        ∀ group : Finset Nat, p ∈ group → (∀ j ∈ group, j < k.world.promises.size) →
          (∀ i ∈ group, k.world.IsSettled (.promise i) → linked i past = forwarded i past) →
          (∃ (visited : List (Machine O)) (count : Nat),
            Run k (k :: visited) (Machine.steps count k) ∧
            (∀ l ∈ visited, ∃ work more, l.agenda = work :: more ++ k.agenda.tail) ∧
            ((Machine.steps count k).agenda = k.agenda.tail ∨
              (Machine.steps count k).panics = true)) ∧
          ∀ (visited : List (Machine O)) (n : Machine O), Run k (k :: visited) n →
            n.agenda = k.agenda.tail → (∀ l ∈ visited, ¬ l.Meddles group) →
              ∀ j ∈ group,
                (n.world.standing? (.promise j) ≠ k.world.standing? (.promise j) ↔
                  k.world.IsPending (.promise j) ∧
                    Relation.ReflTransGen (LinkedIn group past) p j) ∧
                (n.world.standing? (.promise j) ≠ k.world.standing? (.promise j) →
                  CompletedOnce c k (k :: visited) n j) := by
  refine ⟨?_, ?_⟩
  · intro hrest i hi
    have hu : k.underway i = [] := by
      rcases hrest with hrest | ⟨command, hrest⟩
      · rw [Machine.underway, hrest]
        rfl
      · rw [Machine.underway, hrest]
        rfl
    have hall := hpast.linked_eq_forwarded hstart hu hi
    refine ⟨hall, fun j hj => ?_⟩
    rw [hall] at hj
    exact hpast.isSettled_of_forwarded hstart hj
  · intro p c hwon group hp hsize hforwarded
    refine ⟨?_, ?_⟩
    · exact exists_return_of_attempt? hwon
    · intro visited n hrun hn hnot j hj
      have hspread := hrun.spread_of_won hstart hpast hwon hsize hforwarded hnot
      have hchanged : n.world.standing? (.promise j) ≠ k.world.standing? (.promise j) →
          Relation.ReflTransGen (LinkedIn group past) p j ∧
            CompletedOnce c k (k :: visited) n j := by
        intro hne
        cases hspread j hj with
        | same s hkj hnj => exact absurd (hnj.trans hkj.symm) hne
        | completed permits hreached hkj hnj =>
          refine ⟨hreached, hrun.completedOnce (hpast.tidy hstart.tidy) ?_ hkj hnj⟩
          rw [hn]
          exact fun work hwork => List.mem_of_mem_tail hwork
      refine ⟨⟨fun hne => ?_, ?_⟩, fun hne => (hchanged hne).2⟩
      · obtain ⟨hreached, permits, hkj, -⟩ := hchanged hne
        exact ⟨⟨permits, hkj⟩, hreached⟩
      · rintro ⟨hpending, hreached⟩ hsame
        obtain ⟨-, hsettled⟩ := hrun.isSettled_of_reached hstart hpast hwon hn hp hforwarded hspread
          hreached
        obtain ⟨permits, hkj⟩ := hpending
        have hnp : n.world.IsPending (.promise j) := ⟨permits, hsame.trans hkj⟩
        exact hnp.not_isSettled hsettled

end Closure

/-- Promises that are linked in a diamond, in a cycle and to themselves, with permits on one of
them. One that is linked to them stands apart, and one that they are linked to was completed before,
and was linked itself only then. -/
def linkedCommands : List (Command ActionResult) :=
  [.bench (.clock (.create "clock" 7)),
    .promise "top", .promiseWithPermits "left" "clock" 2 5 .done, .promise "right",
      .promise "bottom",
    .promise "apart", .promise "early", .promise "late",
    .link "top" "left", .link "top" "right", .link "left" "bottom", .link "right" "bottom",
    .link "bottom" "top", .link "bottom" "bottom", .link "apart" "top", .link "bottom" "early",
    .settle "early" (.success .success ""), .link "early" "late"]

theorem blank_newMachine : newMachine.Blank :=
  ⟨rfl, rfl, fun _ _ h => nomatch findPromise_eq_ok_iff.mp h⟩

/-- The top of the diamond times out. -/
theorem links_propagate_cyclic :
    ∃ (past visited : List (Machine ActionResult)) (k n : Machine ActionResult),
      Run newMachine past k ∧ k.agenda = [.command (.settle "top" .timeout)] ∧
      Run k (k :: visited) n ∧ n.agenda = [] ∧ (∀ l ∈ visited, ¬ l.Meddles (Finset.range 7)) ∧
      (∀ j ∈ Finset.range 7, n.world.standing? (.promise j) ≠ k.world.standing? (.promise j) ↔
        k.world.IsPending (.promise j) ∧
          Relation.ReflTransGen (LinkedIn (Finset.range 7) past) 0 j) ∧
      (List.range 7).map k.world.result? =
        [none, none, none, none, none, some (.success .success ""), some (.success .success "")] ∧
      (List.range 7).map n.world.result? =
        [some .timeout, some .timeout, some .timeout, some .timeout, none,
          some (.success .success ""), some (.success .success "")] ∧
      CompletedOnce .timeout k (k :: visited) n 1 := by
  let k : Machine ActionResult :=
    { world := { (newMachine.session linkedCommands).2.world with log := [] }
      agenda := [.command (.settle "top" .timeout)] }
  have hpast : Run newMachine _ k :=
    (run_session linkedCommands rfl (by decide +kernel)).append
      (.next (.command (by decide +kernel) (.settle "top" .timeout) [] (.ok .nothing)) (.refl k))
  have hk : k.agenda ≠ [] := List.cons_ne_nil _ _
  have hrun : Run k (k :: k.step.trace 40) (Machine.steps 40 k.step) :=
    .next (.step hk (by decide +kernel)) (run_trace (by decide +kernel))
  have hrest : (Machine.steps 40 k.step).agenda = [] := by decide +kernel
  have hwon : k.attempt? = some ⟨.promise 0, .timeout, true⟩ := by
    have htarget : (Work.command (.settle "top" .timeout)).target? k.world =
        some (.promise 0, .timeout) := by decide +kernel
    have hwins : (k.settle (.promise 0) .timeout).1 = true := by decide +kernel
    rw [attempt?_eq (m := k) rfl, htarget]
    dsimp only [Option.map_some]
    rw [hwins]
  obtain ⟨hbetween, hcalls⟩ := links_propagate blank_newMachine hpast
  have hforwarded : ∀ i ∈ Finset.range 7, k.world.IsSettled (.promise i) →
      linked i _ = forwarded i _ := fun i _ hs => (hbetween (Or.inr ⟨_, rfl⟩) i hs).1
  have hnot : ∀ l ∈ k.step.trace 40, ¬ l.Meddles (Finset.range 7) := by decide +kernel
  obtain ⟨-, hclosure⟩ :=
    hcalls 0 .timeout hwon (Finset.range 7) (by decide) (by decide +kernel) hforwarded
  have hall := hclosure _ _ hrun hrest hnot
  have hresults : (Machine.steps 40 k.step).world.result? 1 ≠ k.world.result? 1 := by decide +kernel
  have hchanged : (Machine.steps 40 k.step).world.standing? (.promise 1) ≠
      k.world.standing? (.promise 1) := fun h =>
        hresults (by rw [World.result?_eq, World.result?_eq, h])
  exact ⟨_, _, k, _, hpast, rfl, hrun, hrest, hnot, fun j hj => (hall j hj).1,
    by decide +kernel, by decide +kernel, (hall 1 (by decide)).2 hchanged⟩

end Admission.Scenario
