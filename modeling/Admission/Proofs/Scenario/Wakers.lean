import Admission.Proofs.Scenario.Rounds

/-!
# What a step does to the wakers of promises

A poll that finds no completion registers its waker with the promise, unless one that wakes the same
waiter is registered already. The completion leaves the wakers where they are; an entry of the
agenda takes them, and puts one entry for each of them on the agenda, in their order.

Most steps are silent: they register no waker, take none, and put no entry on the agenda that wakes.

## Main definitions

* `Waker.same`, `enlist`: wakers of one waiter, and how a waker is registered
* `World.wakers`: the wakers that are registered with a promise
* `Machine.poll?`, `Machine.wake?`: the waker that a step polls with, or wakes
* `Silent`: a step that leaves the wakers alone
* `Stir`: what a step does to the wakers of one promise

## Main results

* `foldl_enlist`: what is registered is the first waker of each waiter
* `step_of_poll?`: what a poll does, and what it replies
* `silent_start`, `silent_perform`: what leaves the wakers alone
* `Next.stir`: what comes next, for one promise
-/

namespace Admission.Scenario

variable {O : Type}

/-! ## Wakers -/

/-- Whether two wakers wake the same waiter. -/
def Waker.same (a b : Waker O) : Bool := a.tag == b.tag

theorem Waker.same_comm (a b : Waker O) : a.same b = b.same a := by
  rw [Waker.same, Waker.same, Bool.beq_comm]

/-- The wakers of a promise after a poll. -/
def enlist (wakers : List (Waker O)) (w : Waker O) : List (Waker O) :=
  if wakers.any (·.same w) then wakers else wakers ++ [w]

theorem wakers_poll (p : ScenarioPromise O) (w : Waker O) :
    (p.poll Waker.same w).wakers = enlist p.wakers w := by
  unfold Promise.poll enlist
  split <;> rfl

/-- **What is registered** after some polls is the first waker of each waiter, in the order of these
polls. -/
theorem foldl_enlist (wakers : List (Waker O)) :
    wakers.foldl enlist [] = wakers.eraseDupsBy Waker.same := by
  -- The wakers that were found so far are kept in reverse.
  have hloop (found : List (Waker O)) :
      List.eraseDupsBy.loop Waker.same wakers found = wakers.foldl enlist found.reverse := by
    induction wakers generalizing found with
    | nil => rfl
    | cons w wakers ih =>
      have hany : found.reverse.any (·.same w) = found.any (w.same ·) := by
        rw [List.any_reverse]
        exact congrArg _ (funext fun k => k.same_comm w)
      rw [List.eraseDupsBy.loop, List.foldl_cons, enlist, hany]
      cases found.any (w.same ·) with
      | true => exact ih found
      | false =>
        rw [if_neg Bool.false_ne_true, ← List.reverse_cons]
        exact ih (w :: found)
  exact (hloop []).symm

/-- The promise whose wakers an entry of the agenda takes or wakes. -/
def Work.wakes? : Work O → Option Nat
  | .wakeAll i => some i
  | .wake i _ => some i
  | _ => none

/-- The waker that an entry of the agenda wakes, with its promise. -/
def Work.wake? : Work O → Option (Nat × Waker O)
  | .wake i w => some (i, w)
  | _ => none

theorem Work.eq_of_wake? {work : Work O} {i : Nat} {w : Waker O} (h : work.wake? = some (i, w)) :
    work = .wake i w := by
  cases work with
  | wake j k => cases h; rfl
  | _ => cases h

/-- What belongs to no promise wakes nobody. -/
theorem Work.wakes?_eq_none {work : Work O} (h : ∀ i, work.owner? ≠ some (.promise i)) :
    work.wakes? = none := by
  cases work with
  | wakeAll i => exact absurd rfl (h i)
  | wake i w => exact absurd rfl (h i)
  | _ => rfl

theorem Work.wakes?_ne {work : Work O} (h : work.owner? = none) (i : Nat) :
    work.wakes? ≠ some i := by
  rw [Work.wakes?_eq_none fun j => by simp [h]]
  exact nofun

variable [Outcome O]

/-- The wakers that are registered with the promise at a place, the earliest first. -/
def World.wakers (w : World O) (i : Nat) : List (Waker O) := (w.promises[i]?.map (·.wakers)).getD []

/-- The waker that a command polls with, and the promise. -/
def Command.poll? (w : World O) : Command O → Option (Nat × Waker O)
  | .poll id waker script =>
    (w.findFuture id).toOption.bind fun i => w.promises[i]?.map fun _ => (i, ⟨waker, script⟩)
  | _ => none

/-- The waker that an entry of the agenda polls with, and the promise. -/
def Work.poll? (w : World O) : Work O → Option (Nat × Waker O)
  | .command c => c.poll? w
  | _ => none

namespace Machine

/-- The waker that the next step polls with, and the promise. -/
def poll? (m : Machine O) : Option (Nat × Waker O) := m.agenda.head?.bind (·.poll? m.world)

/-- The waker that the next step wakes, with its promise. -/
def wake? (m : Machine O) : Option (Nat × Waker O) := m.agenda.head?.bind (·.wake?)

end Machine

namespace World

variable {w : World O}

theorem wakers_congr {v : World O} (h : v.promises = w.promises) (i : Nat) :
    v.wakers i = w.wakers i := by
  rw [wakers, wakers, h]

theorem wakers_eq {i : Nat} {p : ScenarioPromise O} (hp : w.promises[i]? = some p) :
    w.wakers i = p.wakers := by
  rw [wakers, hp]
  rfl

theorem wakers_storePromise {i : Nat} {p : ScenarioPromise O} (hp : w.promises[i]? = some p)
    (p' : ScenarioPromise O) (j : Nat) :
    (w.storePromise i p').wakers j = if j = i then p'.wakers else w.wakers j := by
  have hi : i < w.promises.size := (Array.getElem?_eq_some_iff.mp hp).1
  rw [wakers, storePromise]
  split
  · rename_i hj
    subst hj
    rw [Array.getElem?_setIfInBounds_self_of_lt hi]
    rfl
  · rename_i hj
    rw [Array.getElem?_setIfInBounds_ne (Ne.symm hj)]
    rfl

theorem wakers_storePromise_of_eq {i : Nat} {p p' : ScenarioPromise O}
    (hp : w.promises[i]? = some p)
    (hw : p'.wakers = p.wakers) (j : Nat) : (w.storePromise i p').wakers j = w.wakers j := by
  rw [wakers_storePromise hp]
  split
  · rename_i hj
    rw [hj, hw, wakers_eq hp]
  · rfl

theorem wakers_modifyPromise_of_ne {i j : Nat} (hj : j ≠ i)
    (f : ScenarioPromise O → ScenarioPromise O) : (w.modifyPromise i f).wakers j = w.wakers j := by
  rw [wakers, modifyPromise, Array.getElem?_modify, if_neg (Ne.symm hj)]
  rfl

theorem wakers_modifyPromise {i : Nat} {p : ScenarioPromise O} (hp : w.promises[i]? = some p)
    (f : ScenarioPromise O → ScenarioPromise O) :
    (w.modifyPromise i f).wakers i = (f p).wakers := by
  rw [wakers, modifyPromise, Array.getElem?_modify, if_pos rfl, hp]
  rfl

theorem wakers_modifyPromise_of_eq {f : ScenarioPromise O → ScenarioPromise O}
    (hf : ∀ p, (f p).wakers = p.wakers) (i j : Nat) :
    (w.modifyPromise i f).wakers j = w.wakers j := by
  rw [wakers, wakers, modifyPromise, Array.getElem?_modify]
  split
  · rw [Option.map_map]
    congr 2
    exact funext hf
  · rfl

/-- A new promise has no wakers. -/
theorem wakers_addPromise (id : String) (permits : Option (Permits (Release O))) (i : Nat) :
    (w.addPromise id permits).wakers i = w.wakers i := by
  change ((w.promises.push _)[i]?.map _).getD [] = _
  rw [wakers, Array.getElem?_push]
  split
  · rename_i hi
    rw [hi, Array.getElem?_size]
    rfl
  · rfl

end World

/-- An attempt leaves the wakers where they are, whether or not it wins. -/
theorem wakers_settle (m : Machine O) (h : Holder) (c : Completion O) (i : Nat) :
    (m.settle h c).2.world.wakers i = m.world.wakers i := by
  cases h with
  | completable j =>
    rw [Machine.settle, Machine.settleCompletable]
    split
    · rename_i w permits hw
      obtain ⟨k, -, -, -, rfl⟩ := World.settleCompletable_eq_some hw
      rfl
    · rfl
  | promise j =>
    rw [Machine.settle, Machine.settlePromise]
    split
    · rename_i w permits hw
      obtain ⟨p, hp, -, -, rfl⟩ := World.settlePromise_eq_some hw
      change (m.world.storePromise j { p with result := some c }).wakers i = _
      exact World.wakers_storePromise_of_eq hp (by rfl) i
    · rfl

/-! ## Polls -/

section Polls

variable {m : Machine O} {i : Nat} {w : Waker O}

/-- A command that polls. -/
theorem start_of_poll? {c : Command O} (hc : c.poll? m.world = some (i, w)) :
    ∃ p, m.world.promises[i]? = some p ∧
      m.start c =
        match m.world.result? i with
        | some d => m.answer (.ok (.completion d))
        | none =>
          { m with world := m.world.modifyPromise i (·.poll Waker.same w) }.answer
            (.ok .pending) := by
  cases c with
  | poll id waker script =>
    rw [Command.poll?] at hc
    cases hfound : m.world.findFuture id with
    | error e =>
      rw [hfound] at hc
      cases hc
    | ok j =>
      rw [hfound] at hc
      obtain ⟨p, hp, hc⟩ := Option.map_eq_some_iff.mp hc
      cases hc
      refine ⟨p, hp, ?_⟩
      rw [Machine.start, hfound]
      rfl
  | _ => cases hc

theorem agenda_of_poll? (hpoll : m.poll? = some (i, w)) :
    ∃ c rest, m.agenda = .command c :: rest ∧ c.poll? m.world = some (i, w) := by
  obtain ⟨work, hwork, hc⟩ := Option.bind_eq_some_iff.mp hpoll
  obtain ⟨rest, hm⟩ := List.head?_eq_some_iff.mp hwork
  cases work with
  | command c => exact ⟨c, rest, hm, hc⟩
  | _ => cases hc

/-- **What a poll does.** It replies with the completion if there is one, and changes no promise.
Otherwise it registers its waker, and replies that it is to wait. -/
theorem step_of_poll? (hpoll : m.poll? = some (i, w)) :
    m.step.agenda = m.agenda.tail ∧
      match m.world.result? i with
      | some c => m.step.last = .ok (.completion c) ∧ m.step.world.promises = m.world.promises
      | none => m.step.last = .ok .pending ∧ m.step.world.wakers i = enlist (m.world.wakers i) w ∧
        ∀ j, j ≠ i → m.step.world.wakers j = m.world.wakers j := by
  obtain ⟨c, rest, hm, hc⟩ := agenda_of_poll? hpoll
  obtain ⟨p, hp, hstart⟩ := start_of_poll? (m := m.rest) hc
  have hstep : m.step = (m.rest.start c).retire := step_eq hm
  rw [hstep, Machine.agenda_retire, Machine.last_retire, Machine.promises_retire, hstart]
  have hresult : m.rest.world.result? i = m.world.result? i := rfl
  rw [hresult]
  cases m.world.result? i with
  | some d => exact ⟨rfl, rfl, rfl⟩
  | none =>
    refine ⟨rfl, rfl, ?_, fun j hj => ?_⟩
    · rw [World.wakers_congr Machine.promises_retire, World.wakers_eq (w := m.world) hp,
        ← wakers_poll]
      exact World.wakers_modifyPromise hp _
    · rw [World.wakers_congr Machine.promises_retire]
      exact World.wakers_modifyPromise_of_ne hj _

end Polls

/-! ## Steps that leave the wakers alone -/

/-- A step that changes nothing about the wakers that are registered, and puts no entry on the
agenda that takes or wakes any. -/
structure Silent (m n : Machine O) : Prop where
  wakers : ∀ i, n.world.wakers i = m.world.wakers i
  agenda : ∃ new, n.agenda = new ++ m.agenda ∧ ∀ work ∈ new, work.wakes? = none

namespace Silent

variable {m n : Machine O}

theorem refl (m : Machine O) : Silent m m := ⟨fun _ => rfl, [], rfl, by simp⟩

theorem answer (h : Silent m n) (r : Reply O) : Silent m (n.answer r) := ⟨h.wakers, h.agenda⟩

theorem retire (h : Silent m n) : Silent m n.retire := by
  obtain ⟨services, log, hn⟩ := n.retire_eq
  rw [hn]
  exact ⟨h.wakers, h.agenda⟩

theorem push (h : Silent m n) {works : List (Work O)} (hw : ∀ work ∈ works, work.wakes? = none) :
    Silent m (n.push works) := by
  obtain ⟨hwakers, new, hnew, hfree⟩ := h
  refine ⟨hwakers, works ++ new, ?_, ?_⟩
  · rw [Machine.push, hnew, List.append_assoc]
  · intro work hwork
    rcases List.mem_append.mp hwork with hwork | hwork
    · exact hw work hwork
    · exact hfree work hwork

theorem withWorld (h : Silent m n) {w : World O} (hw : ∀ i, w.wakers i = n.world.wakers i) :
    Silent m { n with world := w } := ⟨fun i => (hw i).trans (h.wakers i), h.agenda⟩

theorem withFound {α : Type} {found : Except Fault α} {f : α → Machine O}
    (hf : ∀ a, found = .ok a → Silent m (f a)) : Silent m (m.withFound found f) := by
  cases found with
  | ok a => exact hf a rfl
  | error e => exact (refl m).answer _

theorem withPromise {id : String} {f : Nat → ScenarioPromise O → Machine O}
    (hf : ∀ i p, Silent m (f i p)) : Silent m (m.withPromise id f) := by
  refine withFound fun i _ => ?_
  split
  · exact hf i _
  · exact (refl m).answer _

end Silent

/-- What leaves all promises alone leaves their wakers alone. -/
theorem Calm.silent {m n : Machine O} (h : Calm m n) : Silent m n := by
  obtain ⟨hpromises, -, new, hnew, hfree⟩ := h
  exact ⟨World.wakers_congr hpromises, new, hnew,
    fun work hwork => Work.wakes?_eq_none (hfree work hwork)⟩

/-- A command that completes no promise, and polls no future of a pending one. -/
theorem silent_start {m : Machine O} {c : Command O} (hc : c.panics m.world = false)
    (hlost : ∀ i, ¬ Wins m.world (c.target? m.world) (.promise i))
    (hpoll : ∀ i w, c.poll? m.world = some (i, w) → m.world.result? i ≠ none) :
    Silent m (m.start c) := by
  have hrefl := Silent.refl m
  have hadd {n : Machine O} (hn : Silent m n) (id : String)
    (permits : Option (Permits (Release O))) :
      Silent m ({ n with world := n.world.addPromise id permits }.answer (.ok .nothing)) :=
    (hn.withWorld (World.wakers_addPromise id permits)).answer _
  cases hvisits : c.visitsPromise with
  | false => exact (calm_start hc hvisits hlost).silent
  | true =>
  cases c with
  | promise id => exact hadd hrefl id none
  | promiseWithPermits id clock units start script =>
    exact Silent.withFound fun c _ => hadd hrefl id _
  | railPromise rail units now as held =>
    rw [Machine.start]
    rcases withPermits_cases m rail units now held _ with hcalm | ⟨n, permits, hn, -, heq⟩
    · exact hcalm.silent
    · rw [heq]
      exact hadd hn.silent as _
  | listen id tag script =>
    refine Silent.withPromise fun i p => ?_
    split
    · exact hrefl.push (by simp [Work.wakes?])
    · refine (hrefl.withWorld ?_).answer _
      exact World.wakers_modifyPromise_of_eq (fun _ => by rfl) i
  | link id target =>
    refine Silent.withPromise fun i p => Silent.withFound fun j _ => ?_
    split
    · exact hrefl.push (by simp [Work.wakes?])
    · refine (hrefl.withWorld ?_).answer _
      exact World.wakers_modifyPromise_of_eq (fun _ => by rfl) i
  | poll id waker script =>
    refine Silent.withFound fun i hi => ?_
    split
    · exact hrefl.answer _
    · rename_i hresult
      -- A future whose promise is pending would have been polled.
      have habsent : m.world.promises[i]? = none := by
        cases hp : m.world.promises[i]? with
        | none => rfl
        | some p =>
          refine absurd hresult (hpoll i ⟨waker, script⟩ ?_)
          rw [Command.poll?, hi]
          simp [Except.toOption, hp]
      refine (hrefl.withWorld fun j => ?_).answer _
      rw [World.wakers, World.modifyPromise, Array.getElem?_modify]
      split
      · rename_i hij
        rw [← hij, habsent, World.wakers, habsent]
        rfl
      · rfl
  | _ => cases hvisits

/-- Every entry but commands and those that take the wakers, unless it completes a promise. -/
theorem silent_perform {m : Machine O} {work : Work O} (hcommand : ∀ c, work ≠ .command c)
    (hwakeAll : ∀ i, work ≠ .wakeAll i)
    (hlost : ∀ i, ¬ Wins m.world (work.target? m.world) (.promise i)) :
    Silent m (m.perform work) := by
  have hrefl := Silent.refl m
  by_cases hdrain : ∃ i, work = .drain i
  · obtain ⟨i, rfl⟩ := hdrain
    rw [Machine.perform]
    split
    · rename_i p hp
      have hstore : Silent m { m with world := m.world.storePromise i p.takeCallbacks.1 } := by
        refine hrefl.withWorld (World.wakers_storePromise_of_eq hp ?_)
        unfold Promise.takeCallbacks
        split <;> rfl
      dsimp only
      split
      · split
        · exact hstore
        · refine hstore.push fun work hwork => ?_
          rcases List.mem_append.mp hwork with hwork | hwork
          · rcases List.mem_append.mp hwork with hwork | hwork
            · obtain ⟨l, -, rfl⟩ := List.mem_map.mp hwork
              rfl
            · obtain ⟨j, -, rfl⟩ := List.mem_map.mp hwork
              rfl
          · rw [List.mem_singleton.mp hwork]
            rfl
      · exact hstore
    · exact hrefl
  · exact (calm_perform hcommand hwakeAll (fun i hi => hdrain ⟨i, hi⟩) hlost).silent

/-! ## One promise -/

/-- What a step does to the wakers of one promise. -/
inductive Stir (i : Nat) (m k : Machine O) : Prop
  | idle (new : List (Work O)) (hw : k.world.wakers i = m.world.wakers i)
      (hagenda : k.agenda = new ++ m.agenda.tail) (hnew : ∀ work ∈ new, work.wakes? ≠ some i)
      (hhead : ∀ work ∈ m.agenda.head?, work.wakes? ≠ some i)
      (hpoll : ∀ w, m.poll? = some (i, w) → m.world.result? i ≠ none)
  | polled (w : Waker O) (hpoll : m.poll? = some (i, w)) (hresult : m.world.result? i = none)
      (hw : k.world.wakers i = enlist (m.world.wakers i) w) (hagenda : k.agenda = m.agenda.tail)
  | completed (c : Completion O) (hwon : m.attempt? = some ⟨.promise i, c, true⟩)
      (hw : k.world.wakers i = m.world.wakers i)
  | summoned (hhead : m.agenda.head? = some (.wakeAll i)) (hw : k.world.wakers i = [])
      (hagenda : k.agenda = (m.world.wakers i).map (.wake i) ++ m.agenda.tail)
  | woken (w : Waker O) (hwake : m.wake? = some (i, w)) (hw : k.world.wakers i = m.world.wakers i)
      (hagenda : k.agenda = .script w.script :: m.agenda.tail)

section Stirs

variable {m k : Machine O} {i : Nat} {work : Work O} {rest : List (Work O)}

/-- An attempt is no poll, and wakes nobody. -/
theorem idle_of_target? {t : Holder × Completion O} (ht : work.target? m.world = some t) :
    work.wakes? = none ∧ work.poll? m.world = none := by
  cases work with
  | command c =>
    refine ⟨rfl, ?_⟩
    cases c with
    | poll id waker script => cases ht
    | _ => rfl
  | wakeAll i => cases ht
  | wake i w => cases ht
  | _ => exact ⟨rfl, rfl⟩

theorem poll?_eq (hm : m.agenda = work :: rest) : m.poll? = work.poll? m.world := by
  rw [Machine.poll?, hm]
  rfl

/-- The wakers of all promises stay where they are when one is completed. -/
theorem wakers_of_target? {h : Holder} {c : Completion O} (hm : m.agenda = work :: rest)
    (ht : work.target? m.world = some (h, c)) (i : Nat) :
    m.step.world.wakers i = m.world.wakers i := by
  rw [step_eq hm]
  cases work with
  | command cmd =>
    have ht' : cmd.target? m.rest.world = some (h, c) := ht
    change (m.rest.start cmd).retire.world.wakers i = _
    rw [World.wakers_congr Machine.promises_retire, start_attempt ht']
    dsimp only
    split
    · exact wakers_settle _ h c i
    · rfl
  | forward j target d => exact wakers_settle m.rest (.promise target) d i
  | fire task =>
    cases task with
    | promise j => exact wakers_settle m.rest (.promise j) .timeout i
    | completable j => exact wakers_settle m.rest (.completable j) .timeout i
    | tagged tag script => cases ht
    | probe => cases ht
  | await j => exact wakers_settle (m.rest.push [.waited j m.last]) (.promise j) .cancelled i
  | _ => cases ht

theorem stir_of_wins (hm : m.agenda = work :: rest) (hk : Next m k) {j : Nat}
    (hwins : Wins m.world (work.target? m.world) (.promise j)) : Stir i m k := by
  obtain ⟨⟨permits, hs⟩, c, ht⟩ := id hwins
  obtain ⟨d, hwon⟩ := attempt?_of_wins hm hwins
  have hstep : k = m.step := by
    cases hk with
    | command ha => rw [hm] at ha; cases ha
    | step ha hp => rfl
  have hw : k.world.wakers i = m.world.wakers i := hstep ▸ wakers_of_target? hm ht i
  by_cases hi : j = i
  · subst hi
    exact .completed d hwon hw
  · obtain ⟨-, reply, hagenda, hreply⟩ := hk.of_won hwon hs
    obtain ⟨hidle, hpoll⟩ := idle_of_target? ht
    refine .idle _ hw hagenda ?_ ?_ ?_
    · intro new hnew
      rcases List.mem_append.mp hnew with hnew | hnew
      · -- What follows the completion of another promise wakes for that one.
        rcases List.mem_append.mp hnew with hnew | hnew
        · rw [Option.mem_toList, Option.map_eq_some_iff] at hnew
          obtain ⟨p, -, rfl⟩ := hnew
          exact nofun
        · rcases List.mem_cons.mp hnew with rfl | hnew
          · exact fun h => hi (Option.some.inj h)
          · rw [List.mem_singleton.mp hnew]
            exact nofun
      · exact Work.wakes?_ne (hreply new hnew) i
    · rw [hm]
      rintro _ ⟨⟩
      simp [hidle]
    · simp [poll?_eq hm, hpoll]

theorem stir_of_wakeAll {j : Nat} (hm : m.agenda = .wakeAll j :: rest) : Stir i m m.step := by
  have hpoll : m.poll? = none := poll?_eq hm
  have hstep : m.step.world.wakers i = (if i = j then [] else m.world.wakers i) ∧
      m.step.agenda = (m.world.wakers j).map (.wake j) ++ rest := by
    rw [step_eq hm, Machine.perform]
    split
    · rename_i p hp
      have hp : m.world.promises[j]? = some p := hp
      refine ⟨?_, ?_⟩
      · change (m.world.storePromise j p.takeWakers.1).wakers i = _
        rw [World.wakers_storePromise hp]
        rfl
      · change p.wakers.map _ ++ m.agenda.tail = _
        rw [hm, World.wakers_eq hp]
        rfl
    · rename_i hnone
      have habsent : m.world.wakers j = [] := by
        have hnone' : m.world.promises[j]? = none := hnone
        rw [World.wakers, hnone']
        rfl
      refine ⟨?_, ?_⟩
      · split
        · rename_i hij
          exact hij ▸ habsent
        · rfl
      · rw [habsent, Machine.rest, hm]
        rfl
  obtain ⟨hw, hagenda⟩ := hstep
  by_cases hi : i = j
  · subst hi
    rw [if_pos rfl] at hw
    refine .summoned (by rw [hm]; rfl) hw ?_
    rw [hagenda, hm]
    rfl
  · rw [if_neg hi] at hw
    refine .idle _ hw (by rw [hagenda, hm]; rfl) ?_ ?_ (by simp [hpoll])
    · intro work hwork
      obtain ⟨w, -, rfl⟩ := List.mem_map.mp hwork
      exact fun h => hi (Option.some.inj h).symm
    · rw [hm]
      rintro _ ⟨⟩
      exact fun h => hi (Option.some.inj h).symm

/-- A step that leaves the wakers alone may still wake one that was taken. -/
theorem Silent.stir (h : Silent m.rest k) (hm : m.agenda = work :: rest)
    (hstep : k = m.rest.perform work) (hwakeAll : ∀ j, work ≠ .wakeAll j)
    (hpoll : ∀ w, work.poll? m.world = some (i, w) → m.world.result? i ≠ none) : Stir i m k := by
  by_cases hwake : ∃ w, work = .wake i w
  · obtain ⟨w, rfl⟩ := hwake
    refine .woken w ?_ (h.wakers i) ?_
    · rw [Machine.wake?, hm]
      rfl
    · rw [hstep]
      rfl
  · obtain ⟨new, hnew, hfree⟩ := h.agenda
    refine .idle new (h.wakers i) hnew (fun work hwork => by simp [hfree work hwork]) ?_ ?_
    · rw [hm]
      rintro _ ⟨⟩
      cases work with
      | wakeAll j => exact absurd rfl (hwakeAll j)
      | wake j w => exact fun h => hwake ⟨w, by rw [Option.some.inj h]⟩
      | _ => exact nofun
    · intro w hw
      rw [poll?_eq hm] at hw
      exact hpoll w hw

theorem stir_of_command {c : Command O} (hm : m.agenda = .command c :: rest) (hp : m.panics = false)
    (hlost : ∀ j, ¬ Wins m.world (c.target? m.world) (.promise j)) : Stir i m m.step := by
  by_cases hpolls : ∃ j w, c.poll? m.world = some (j, w) ∧ m.world.result? j = none
  · obtain ⟨j, w, hc, hresult⟩ := hpolls
    have hpoll : m.poll? = some (j, w) := (poll?_eq hm).trans hc
    obtain ⟨hagenda, hpolled⟩ := step_of_poll? hpoll
    rw [hresult] at hpolled
    obtain ⟨-, hw, hothers⟩ := hpolled
    by_cases hi : i = j
    · subst hi
      exact .polled w hpoll hresult hw hagenda
    · refine .idle [] (hothers i hi) hagenda (fun _ hnew => by cases hnew) ?_ ?_
      · rw [hm]
        rintro _ ⟨⟩
        simp [Work.wakes?]
      · intro w' hw'
        rw [hpoll] at hw'
        cases hw'
        exact absurd rfl hi
  · have hpoll : ∀ j w, c.poll? m.rest.world = some (j, w) → m.rest.world.result? j ≠ none :=
      fun j w hc hresult => hpolls ⟨j, w, hc, hresult⟩
    rw [Machine.panics, hm] at hp
    have hsilent : Silent m.rest (m.rest.start c).retire :=
      (silent_start (m := m.rest) hp hlost hpoll).retire
    rw [step_eq hm]
    exact hsilent.stir hm rfl (fun j hj => by cases hj) (hpoll i)

/-- **What comes next for the wakers of one promise.** -/
theorem Next.stir (hk : Next m k) (i : Nat) : Stir i m k := by
  have hk' := hk
  cases hk with
  | command ha c log last =>
    refine .idle [.command c] rfl (by rw [ha]; rfl) ?_ (by simp [ha]) ?_
    · intro work hwork
      rw [List.mem_singleton.mp hwork]
      exact nofun
    · simp [Machine.poll?, ha]
  | step ha hp =>
    obtain ⟨work, rest, ha⟩ := List.exists_cons_of_ne_nil ha
    by_cases hwins : ∃ j, Wins m.world (work.target? m.world) (.promise j)
    · obtain ⟨j, hj⟩ := hwins
      exact stir_of_wins ha hk' hj
    · have hlost : ∀ j, ¬ Wins m.world (work.target? m.world) (.promise j) :=
        fun j hj => hwins ⟨j, hj⟩
      by_cases hwakeAll : ∃ j, work = .wakeAll j
      · obtain ⟨j, rfl⟩ := hwakeAll
        exact stir_of_wakeAll ha
      · have hno : ∀ j, work ≠ .wakeAll j := fun j hj => hwakeAll ⟨j, hj⟩
        by_cases hcommand : ∃ c, work = .command c
        · obtain ⟨c, rfl⟩ := hcommand
          exact stir_of_command ha hp hlost
        · have hsilent := silent_perform (m := m.rest) (fun c hc => hcommand ⟨c, hc⟩) hno hlost
          rw [← step_eq ha] at hsilent
          refine hsilent.stir ha (step_eq ha) hno fun w hw => ?_
          cases work with
          | command c => exact absurd ⟨c, rfl⟩ hcommand
          | _ => cases hw

end Stirs

end Admission.Scenario
