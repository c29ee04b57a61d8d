import Admission.Proofs.Scenario.Accounts
import Admission.Proofs.Scenario.Settling
import Admission.Proofs.Scenario.Wakers

/-!
# Waiters are woken once

A future of a promise can be polled at any time: while the promise is pending, from inside the
release function, the wakers and the callbacks that its completion starts, and when all this is
over. As long as there is no completion a poll registers its waker and replies that it is to wait.
The call that completes the promise returns the permits, then wakes every waiter once, in the order
of their first polls, and only then runs the callbacks. No poll comes too late for that: one that
finds the completion replies with it.

What the call that completes a promise has still to do tells how far it is. First the entry that
takes the wakers stands on the agenda, with what the release function does in front of it; then one
entry for each waker, with what the wakers do in front of these. Behind them stand the callbacks,
and the rest of the call.

## Main definitions

* `sleepers`, `woken`: the wakers of polls that were told to wait, and the wakers that are woken
* `Machine.sleeping`: the wakers that are still to be woken
* `Stage`: how far the call is that completes a promise
* `Vigil`: how far a promise is, as its waiters see it
* `InTurn`: what is done and what is not, when a waker is woken

## Main results

* `Next.stage`, `Run.stage`, `Next.vigil`: the stages go on
* `Vigil.balance`, `Run.tally`: a step keeps account of the waiters, and so does a run
* `Run.inTurn`: wakers are woken after the permits are returned and before the callbacks
* `Next.leaves_awake`: nobody sleeps when the call that completes a promise returns
* `waiters_woken_once`: waiters are woken once, in the order of their first polls
-/

namespace Admission.Scenario

variable {O : Type}

/-- Whether a reply says that somebody is to wait. -/
def Reply.isPending : Reply O → Bool
  | .ok .pending => true
  | _ => false

/-- The wakers of a promise that some entries of the agenda wake. -/
def summoned (i : Nat) (works : List (Work O)) : List (Waker O) :=
  works.filterMap fun work => (work.wake?.filter (·.1 = i)).map (·.2)

theorem summoned_append (i : Nat) (works more : List (Work O)) :
    summoned i (works ++ more) = summoned i works ++ summoned i more := List.filterMap_append

theorem summoned_eq_nil {i : Nat} {works : List (Work O)}
    (h : ∀ work ∈ works, work.wakes? ≠ some i) :
    summoned i works = [] := by
  refine List.filterMap_eq_nil_iff.mpr fun work hwork => ?_
  cases work with
  | wake j w =>
    have hne : j ≠ i := fun hj => h _ hwork (congrArg some hj)
    simp [Work.wake?, Option.filter, hne]
  | _ => rfl

/-- What takes the wakers and what runs the callbacks wakes nobody by itself. -/
@[simp] theorem summoned_wakeAll_cons (i : Nat) (works : List (Work O)) :
    summoned i (.wakeAll i :: works) = summoned i works := rfl

@[simp] theorem summoned_drain_cons (i : Nat) (works : List (Work O)) :
    summoned i (.drain i :: works) = summoned i works := rfl

@[simp] theorem summoned_script_cons (i : Nat) (s : Script O) (works : List (Work O)) :
    summoned i (.script s :: works) = summoned i works := rfl

@[simp] theorem summoned_wake_cons (i : Nat) (w : Waker O) (works : List (Work O)) :
    summoned i (.wake i w :: works) = w :: summoned i works := by simp [summoned, Work.wake?]

@[simp] theorem summoned_map_wake (i : Nat) (ws : List (Waker O)) :
    summoned i (ws.map (.wake i)) = ws := by
  induction ws with
  | nil => rfl
  | cons w ws ih => rw [List.map_cons, summoned_wake_cons, ih]

variable [Outcome O]

/-- The wakers of polls of a promise's futures that were told to wait, the earliest first. -/
def sleepers (i : Nat) (visited : List (Machine O)) : List (Waker O) :=
  visited.filterMap fun m =>
    ((m.poll?.filter (·.1 = i)).map (·.2)).filter fun _ => Reply.isPending m.step.last

/-- The wakers of a promise that are woken, the earliest first. -/
def woken (i : Nat) (visited : List (Machine O)) : List (Waker O) :=
  visited.filterMap fun m => (m.wake?.filter (·.1 = i)).map (·.2)

/-- The wakers of a promise that are still to be woken: those that were taken, and those that are
registered. -/
def Machine.sleeping (m : Machine O) (i : Nat) : List (Waker O) :=
  summoned i m.agenda ++ m.world.wakers i

section Lists

variable {m : Machine O} {i : Nat} {w : Waker O}

theorem sleepers_append (i : Nat) (visited later : List (Machine O)) :
    sleepers i (visited ++ later) = sleepers i visited ++ sleepers i later := List.filterMap_append

theorem woken_append (i : Nat) (visited later : List (Machine O)) :
    woken i (visited ++ later) = woken i visited ++ woken i later := List.filterMap_append

/-- A poll that finds no completion is told to wait. -/
theorem sleepers_singleton (hpoll : m.poll? = some (i, w)) (hresult : m.world.result? i = none) :
    sleepers i [m] = [w] := by
  obtain ⟨-, hstep⟩ := step_of_poll? hpoll
  rw [hresult] at hstep
  simp [sleepers, hpoll, hstep.1, Reply.isPending]

theorem sleepers_singleton_of_ne (hpoll : ∀ w, m.poll? = some (i, w) → m.world.result? i ≠ none) :
    sleepers i [m] = [] := by
  by_cases hsome : ∃ w, m.poll? = some (i, w)
  · obtain ⟨w, hw⟩ := hsome
    obtain ⟨c, hc⟩ := Option.ne_none_iff_exists'.mp (hpoll w hw)
    obtain ⟨-, hstep⟩ := step_of_poll? hw
    rw [hc] at hstep
    simp [sleepers, hw, hstep.1, Reply.isPending]
  · simp [sleepers, filter_eq_none_of_ne fun w hw => hsome ⟨w, hw⟩]

theorem woken_singleton (hwake : m.wake? = some (i, w)) : woken i [m] = [w] := by
  simp [woken, hwake]

theorem woken_singleton_of_ne (hhead : ∀ work ∈ m.agenda.head?, work.wakes? ≠ some i) :
    woken i [m] = [] := by
  have hno : ∀ w, m.wake? ≠ some (i, w) := by
    intro w hw
    obtain ⟨work, hwork, hwake⟩ := Option.bind_eq_some_iff.mp hw
    obtain rfl := Work.eq_of_wake? hwake
    exact hhead _ hwork rfl
  simp [woken, filter_eq_none_of_ne hno]

theorem agenda_of_wake? (hwake : m.wake? = some (i, w)) :
    m.agenda = .wake i w :: m.agenda.tail := by
  obtain ⟨work, hwork, hw⟩ := Option.bind_eq_some_iff.mp hwake
  obtain rfl := Work.eq_of_wake? hw
  obtain ⟨rest, hm⟩ := List.head?_eq_some_iff.mp hwork
  rw [hm]
  rfl

theorem head?_of_wake? (hwake : m.wake? = some (i, w)) : m.agenda.head? = some (.wake i w) := by
  rw [agenda_of_wake? hwake]
  rfl

end Lists

/-! ## The stages of a completion -/

/-- How far the call is that completes a promise, where some entries stand behind its callbacks.
While the permits are returned the wakers stay registered. Then they are taken, and stand on the
agenda until they are woken. When none is left, none will come. -/
inductive Stage (i : Nat) (base : List (Work O)) (m : Machine O) : Prop
  | returning (started : List (Work O))
      (hagenda : m.agenda = started ++ .wakeAll i :: .drain i :: base)
      (hstarted : ∀ work ∈ started, work.wakes? ≠ some i) (hunder : m.underway i = [.drain i])
  | waking (started : List (Work O)) (ws : List (Waker O))
      (hagenda : m.agenda = started ++ (ws.map (.wake i) ++ .drain i :: base))
      (hstarted : ∀ work ∈ started, work.wakes? ≠ some i) (hunder : m.underway i = [.drain i])
      (hw : m.world.wakers i = [])
  | awake (hagenda : ∀ work ∈ m.agenda, work.wakes? ≠ some i) (hw : m.world.wakers i = [])

section Stages

variable {m k n : Machine O} {i : Nat} {base : List (Work O)} {visited : List (Machine O)}

theorem not_isSettled_of_result? (h : m.world.result? i = none) :
    ¬ m.world.IsSettled (.promise i) := by
  intro hs
  obtain ⟨q, c, hq, hc⟩ := World.isSettled_iff_queue?.mp hs
  rw [World.result?_eq_some_iff.mpr ⟨q, hq, hc⟩] at h
  cases h

/-- Nothing of a settled promise is polled or completed. -/
theorem Next.stir_of_isSettled (hk : Next m k) (hs : m.world.IsSettled (.promise i)) :
    (∃ new, k.world.wakers i = m.world.wakers i ∧ k.agenda = new ++ m.agenda.tail ∧
      (∀ work ∈ new, work.wakes? ≠ some i) ∧ ∀ work ∈ m.agenda.head?, work.wakes? ≠ some i) ∨
    (m.agenda.head? = some (.wakeAll i) ∧ k.world.wakers i = [] ∧
      k.agenda = (m.world.wakers i).map (.wake i) ++ m.agenda.tail) ∨
    ∃ w, m.wake? = some (i, w) ∧ k.world.wakers i = m.world.wakers i ∧
      k.agenda = .script w.script :: m.agenda.tail := by
  cases hk.stir i with
  | idle new hw hagenda hnew hhead hpoll => exact Or.inl ⟨new, hw, hagenda, hnew, hhead⟩
  | polled w hpoll hresult hw hagenda => exact absurd hs (not_isSettled_of_result? hresult)
  | completed c hwon hw =>
    have hp : m.world.IsPending (.promise i) := (won_of_attempt? hwon).mp rfl
    exact absurd hs hp.not_isSettled
  | summoned hhead hw hagenda => exact Or.inr (Or.inl ⟨hhead, hw, hagenda⟩)
  | woken w hwake hw hagenda => exact Or.inr (Or.inr ⟨w, hwake, hw, hagenda⟩)

/-- As long as nothing but the first round of callbacks is underway, and it does not begin, nothing
else is. -/
theorem Turn.underway_of_drain (h : Turn i m k) (hs : m.world.IsSettled (.promise i))
    (hunder : m.underway i = [.drain i]) (hhead : m.agenda.head? ≠ some (.drain i)) :
    k.underway i = [.drain i] := by
  obtain ⟨q, c, hq, hc⟩ := World.isSettled_iff_queue?.mp hs
  cases h with
  | idle hq' hu => exact hu.trans hunder
  | made hn => rw [hq] at hn; cases hn
  | completed d q' hwon hq' hn =>
    rw [hq] at hq'
    cases hq'
    rw [hc] at hn
    cases hn
  | registered r q' hreg hq' hlate hk hu => exact hu.trans hunder
  | late r d q' hreg hq' hlate hk hum => rw [hunder] at hum; cases hum
  | called r d hcall hq' hu =>
    rw [hunder] at hu
    cases r <;> cases hu
  | round d q' hhead' => exact absurd hhead' hhead
  | last d q' hhead' => exact absurd hhead' hhead

/-- The first round of callbacks does not begin while anything stands before it. -/
theorem head?_ne_drain {started more : List (Work O)}
    (hagenda : m.agenda = started ++ .drain i :: more)
    (hunder : m.underway i = [.drain i]) (hne : started ≠ []) :
    m.agenda.head? ≠ some (.drain i) := by
  obtain ⟨work, started, rfl⟩ := List.exists_cons_of_ne_nil hne
  intro hhead
  rw [hagenda] at hhead
  obtain rfl := Option.some.inj hhead
  -- Otherwise the round would be underway twice.
  have htwice : (m.underway i).length = 1 := by rw [hunder]; rfl
  rw [Machine.underway, hagenda, List.cons_append, List.filter_cons_of_pos (by simp),
    List.filter_append, List.filter_cons_of_pos (by simp)] at htwice
  simp at htwice

/-- What was started before the wakers of the promise goes on, and leaves them alone. -/
theorem Next.started (hk : Next m k) (hs : m.world.IsSettled (.promise i)) {first : Work O}
    {more rest : List (Work O)} (hagenda : m.agenda = first :: more ++ rest)
    (hstarted : ∀ work ∈ first :: more, work.wakes? ≠ some i) :
    ∃ started, k.agenda = started ++ rest ∧ (∀ work ∈ started, work.wakes? ≠ some i) ∧
      k.world.wakers i = m.world.wakers i := by
  have hfirst := hstarted first List.mem_cons_self
  rcases hk.stir_of_isSettled hs with ⟨new, hw, hk', hnew, -⟩ | ⟨hhead, -⟩ | ⟨w, hwake, -⟩
  · refine ⟨new ++ more, ?_, ?_, hw⟩
    · rw [hk', hagenda, List.append_assoc]
      rfl
    · exact List.forall_mem_append.mpr
        ⟨hnew, fun work hwork => hstarted work (List.mem_cons_of_mem _ hwork)⟩
  · rw [hagenda] at hhead
    obtain rfl := Option.some.inj hhead
    exact absurd rfl hfirst
  · rw [agenda_of_wake? hwake] at hagenda
    obtain ⟨rfl, -⟩ := List.cons.inj hagenda
    exact absurd rfl hfirst

/-- While the permits are returned, and when the wakers are taken. -/
theorem Next.stage_of_returning (hk : Next m k) (hphase : ∀ j, Phase j m)
    (hs : m.world.IsSettled (.promise i)) {started : List (Work O)}
    (hagenda : m.agenda = started ++ .wakeAll i :: .drain i :: base)
    (hstarted : ∀ work ∈ started, work.wakes? ≠ some i) (hunder : m.underway i = [.drain i]) :
    Stage i base k := by
  have hbefore : m.agenda = (started ++ [.wakeAll i]) ++ .drain i :: base := by simp [hagenda]
  have hunder' : k.underway i = [.drain i] :=
    (hk.turn hphase i).underway_of_drain hs hunder (head?_ne_drain hbefore hunder (by simp))
  cases started with
  | cons first more =>
    obtain ⟨started, hk', hstarted', -⟩ := hk.started hs hagenda hstarted
    exact .returning started hk' hstarted' hunder'
  | nil =>
    have hhead : m.agenda.head? = some (.wakeAll i) := by rw [hagenda]; rfl
    rcases hk.stir_of_isSettled hs with ⟨new, -, -, -, hno⟩ | ⟨-, hw, hk'⟩ | ⟨w, hwake, -⟩
    · exact absurd rfl (hno _ hhead)
    · refine .waking [] (m.world.wakers i) ?_ nofun hunder' hw
      rw [hk', hagenda]
      rfl
    · rw [agenda_of_wake? hwake] at hagenda
      cases hagenda

/-- While the wakers are woken, and when none of them is left. -/
theorem Next.stage_of_waking (hk : Next m k) (hphase : ∀ j, Phase j m)
    (hs : m.world.IsSettled (.promise i)) (hbase : ∀ work ∈ base, work.wakes? ≠ some i)
    {started : List (Work O)} {ws : List (Waker O)}
    (hagenda : m.agenda = started ++ (ws.map (.wake i) ++ .drain i :: base))
    (hstarted : ∀ work ∈ started, work.wakes? ≠ some i) (hunder : m.underway i = [.drain i])
    (hw : m.world.wakers i = []) : Stage i base k := by
  have hunder' (hne : started ++ ws.map (.wake i) ≠ []) : k.underway i = [.drain i] :=
    (hk.turn hphase i).underway_of_drain hs hunder
      (head?_ne_drain (hagenda.trans (List.append_assoc _ _ _).symm) hunder hne)
  cases started with
  | cons first more =>
    obtain ⟨started, hk', hstarted', hw'⟩ := hk.started hs hagenda hstarted
    exact .waking started ws hk' hstarted' (hunder' (by simp)) (hw'.trans hw)
  | nil =>
    cases ws with
    | nil =>
      -- The callbacks are next, and they wake nobody.
      have hdrain : m.agenda = .drain i :: [] ++ base := hagenda
      obtain ⟨started, hk', hstarted', hw'⟩ := hk.started hs hdrain (by simp [Work.wakes?])
      refine .awake ?_ (hw'.trans hw)
      rw [hk']
      exact List.forall_mem_append.mpr ⟨hstarted', hbase⟩
    | cons w ws =>
      have hhead : m.agenda.head? = some (.wake i w) := by rw [hagenda]; rfl
      rcases hk.stir_of_isSettled hs with ⟨new, -, -, -, hno⟩ | ⟨hhead', -⟩ | ⟨w', hwake, hw', hk'⟩
      · exact absurd rfl (hno _ hhead)
      · rw [hhead] at hhead'
        cases hhead'
      · refine .waking [.script w'.script] ws ?_ (by simp [Work.wakes?]) (hunder' (by simp))
          (hw'.trans hw)
        rw [hk', hagenda]
        rfl

/-- Once nobody is left to be woken, nobody will be. -/
theorem Next.awake (hk : Next m k) (hs : m.world.IsSettled (.promise i))
    (hagenda : ∀ work ∈ m.agenda, work.wakes? ≠ some i) :
    (∀ work ∈ k.agenda, work.wakes? ≠ some i) ∧ k.world.wakers i = m.world.wakers i := by
  rcases hk.stir_of_isSettled hs with ⟨new, hw, hk', hnew, -⟩ | ⟨hhead, -⟩ | ⟨w, hwake, -⟩
  · refine ⟨?_, hw⟩
    rw [hk']
    exact List.forall_mem_append.mpr ⟨hnew, fun work hwork =>
      hagenda work (List.mem_of_mem_tail hwork)⟩
  · exact absurd rfl (hagenda _ (List.mem_of_mem_head? hhead))
  · exact absurd rfl (hagenda _ (List.mem_of_mem_head? (head?_of_wake? hwake)))

/-- **The stages go on.** -/
theorem Next.stage (hk : Next m k) (hphase : ∀ j, Phase j m) (hs : m.world.IsSettled (.promise i))
    (hbase : ∀ work ∈ base, work.wakes? ≠ some i) (hm : Stage i base m) : Stage i base k := by
  cases hm with
  | returning started hagenda hstarted hunder =>
    exact hk.stage_of_returning hphase hs hagenda hstarted hunder
  | waking started ws hagenda hstarted hunder hw =>
    exact hk.stage_of_waking hphase hs hbase hagenda hstarted hunder hw
  | awake hagenda hw =>
    obtain ⟨hagenda', hw'⟩ := hk.awake hs hagenda
    exact .awake hagenda' (hw'.trans hw)

theorem Run.stage (hrun : Run m visited n) (hphase : ∀ j, Phase j m)
    (hs : m.world.IsSettled (.promise i)) (hbase : ∀ work ∈ base, work.wakes? ≠ some i)
    (hm : Stage i base m) : Stage i base n := by
  induction hrun with
  | refl m => exact hm
  | next hk hrun ih =>
    exact ih (hk.phase hphase) (hk.isSettled hs) (hk.stage hphase hs hbase hm)

/-- The call that completes a promise begins with the return of the permits. -/
theorem Next.agenda_of_won (hk : Next m k) {c : Completion O}
    (hwon : m.attempt? = some ⟨.promise i, c, true⟩) :
    ∃ release reply, k.agenda = release ++ .wakeAll i :: .drain i :: (reply ++ m.agenda.tail) ∧
      (∀ work ∈ release, work.wakes? = none ∧ work.runs? = none) ∧
      ∀ work ∈ reply, work.owner? = none := by
  obtain ⟨permits, hs⟩ := (won_of_attempt? hwon).mp rfl
  obtain ⟨-, reply, hagenda, hreply⟩ := hk.of_won hwon hs
  refine ⟨(permits.map fun p => Work.release (.promise i) p c.outcome).toList, reply,
    ?_, ?_, hreply⟩
  · rw [hagenda, Holder.followUp]
    simp
  · intro work hwork
    rw [Option.mem_toList, Option.map_eq_some_iff] at hwork
    obtain ⟨p, -, rfl⟩ := hwork
    exact ⟨rfl, rfl⟩

/-- The call that completes a promise is in the first stage. -/
theorem Next.stage_of_won (hk : Next m k) (hphase : ∀ j, Phase j m)
    (hm : ∀ work ∈ m.agenda, work.wakes? ≠ some i) {c : Completion O}
    (hwon : m.attempt? = some ⟨.promise i, c, true⟩) :
    ∃ reply, (∀ work ∈ reply, work.owner? = none) ∧
      (∀ work ∈ reply ++ m.agenda.tail, work.wakes? ≠ some i) ∧
      Stage i (reply ++ m.agenda.tail) k := by
  have hpending : m.world.IsPending (.promise i) := (won_of_attempt? hwon).mp rfl
  obtain ⟨release, reply, hagenda, hrelease, hreply⟩ := hk.agenda_of_won hwon
  refine ⟨reply, hreply, ?_, ?_⟩
  · exact List.forall_mem_append.mpr ⟨fun work hwork => Work.wakes?_ne (hreply work hwork) i,
      fun work hwork => hm work (List.mem_of_mem_tail hwork)⟩
  · have htail : m.agenda.tail.filter (·.runs? = some i) = [] :=
      (hphase i).underway_of_tail (n := m.rest) hpending rfl
    have hruns : ∀ work ∈ reply, work.runs? ≠ some i := by
      intro work hwork
      have hnone : work.runs? = none := Work.runs?_eq_none fun j => by simp [hreply work hwork]
      simp [hnone]
    refine .returning release hagenda (by simp +contextual [hrelease]) ?_
    rw [Machine.underway, hagenda, List.filter_append,
      List.filter_cons_of_neg (by simp [Work.runs?]), List.filter_cons_of_pos (by simp),
      List.filter_append, htail, filter_runs?_eq_nil (by simp +contextual [hrelease]),
      filter_runs?_eq_nil hruns]
    rfl

/-- When the wakers are taken, the callbacks are what stands behind. -/
theorem Stage.of_wakeAll (hm : Stage i base m) (hhead : m.agenda.head? = some (.wakeAll i)) :
    m.agenda = .wakeAll i :: .drain i :: base := by
  obtain ⟨rest, hrest⟩ := List.head?_eq_some_iff.mp hhead
  cases hm with
  | returning started hagenda hstarted =>
    cases started with
    | nil => exact hagenda
    | cons first more =>
      obtain ⟨rfl, -⟩ := List.cons.inj (hrest.symm.trans hagenda)
      exact absurd rfl (hstarted _ List.mem_cons_self)
  | waking started ws hagenda hstarted =>
    cases started with
    | nil =>
      cases ws with
      | nil => cases hrest.symm.trans hagenda
      | cons w ws => cases hrest.symm.trans hagenda
    | cons first more =>
      obtain ⟨rfl, -⟩ := List.cons.inj (hrest.symm.trans hagenda)
      exact absurd rfl (hstarted _ List.mem_cons_self)
  | awake hagenda => exact absurd rfl (hagenda _ (List.mem_of_mem_head? hhead))

/-- When a waker is woken, the others and the callbacks are what stands behind. -/
theorem Stage.of_wake? (hm : Stage i base m) {w : Waker O} (hwake : m.wake? = some (i, w)) :
    ∃ ws, m.agenda = (w :: ws).map (.wake i) ++ .drain i :: base ∧ m.underway i = [.drain i] ∧
      m.world.wakers i = [] := by
  have hrest := agenda_of_wake? hwake
  cases hm with
  | returning started hagenda hstarted =>
    cases started with
    | nil => cases hrest.symm.trans hagenda
    | cons first more =>
      obtain ⟨rfl, -⟩ := List.cons.inj (hrest.symm.trans hagenda)
      exact absurd rfl (hstarted _ List.mem_cons_self)
  | waking started ws hagenda hstarted hunder hw =>
    cases started with
    | nil =>
      cases ws with
      | nil => cases hrest.symm.trans hagenda
      | cons w' ws =>
        obtain ⟨hw', -⟩ := List.cons.inj (hrest.symm.trans hagenda)
        cases hw'
        exact ⟨ws, hagenda, hunder, hw⟩
    | cons first more =>
      obtain ⟨rfl, -⟩ := List.cons.inj (hrest.symm.trans hagenda)
      exact absurd rfl (hstarted _ List.mem_cons_self)
  | awake hagenda => exact absurd rfl (hagenda _ (List.mem_of_mem_head? (head?_of_wake? hwake)))

end Stages

/-! ## The account of the waiters -/

/-- How far a promise is, as its waiters see it: they sleep until it is completed, and are woken in
the stages of the call that completes it. -/
inductive Vigil (i : Nat) (m : Machine O) : Prop
  | asleep (hpending : ¬ m.world.IsSettled (.promise i))
      (hagenda : ∀ work ∈ m.agenda, work.wakes? ≠ some i)
  | roused (base : List (Work O)) (hs : m.world.IsSettled (.promise i))
      (hbase : ∀ work ∈ base, work.wakes? ≠ some i) (hstage : Stage i base m)

section Vigils

variable {m k n : Machine O} {i : Nat} {visited : List (Machine O)}

theorem Next.exists_won (hk : Next m k) (hphase : ∀ j, Phase j m)
    (hm : ¬ m.world.IsSettled (.promise i)) (hs : k.world.IsSettled (.promise i)) :
    ∃ c, m.attempt? = some ⟨.promise i, c, true⟩ := by
  obtain ⟨q, c, hq, hc⟩ := World.isSettled_iff_queue?.mp hs
  rcases (Run.next hk (.refl k)).exists_won hphase ⟨q, hq, hc⟩ with ⟨q', hq',
    hc'⟩ | ⟨first, hfirst, hwon⟩
  · exact absurd (World.isSettled_iff_queue?.mpr ⟨q', c, hq', hc'⟩) hm
  · rw [List.mem_singleton.mp hfirst] at hwon
    exact ⟨c, hwon⟩

/-- The vigil goes on. -/
theorem Next.vigil (hk : Next m k) (hphase : ∀ j, Phase j m) (hm : Vigil i m) : Vigil i k := by
  cases hm with
  | roused base hs hbase hstage =>
    exact .roused base (hk.isSettled hs) hbase (hk.stage hphase hs hbase hstage)
  | asleep hpending hagenda =>
    by_cases hs : k.world.IsSettled (.promise i)
    · obtain ⟨c, hwon⟩ := hk.exists_won hphase hpending hs
      obtain ⟨reply, -, hbase, hstage⟩ := hk.stage_of_won hphase hagenda hwon
      exact .roused _ hs hbase hstage
    · have htail : ∀ work ∈ m.agenda.tail, work.wakes? ≠ some i :=
        fun work hwork => hagenda work (List.mem_of_mem_tail hwork)
      refine .asleep hs ?_
      cases hk.stir i with
      | idle new hw hk' hnew =>
        rw [hk']
        exact List.forall_mem_append.mpr ⟨hnew, htail⟩
      | polled w hpoll hresult hw hk' =>
        rw [hk']
        exact htail
      | completed c hwon => exact absurd (hk.isSettled_of_won hwon) hs
      | summoned hhead => exact absurd rfl (hagenda _ (List.mem_of_mem_head? hhead))
      | woken w hwake => exact absurd rfl (hagenda _ (List.mem_of_mem_head? (head?_of_wake? hwake)))

theorem Run.vigil (hrun : Run m visited n) (hphase : ∀ j, Phase j m) (hm : Vigil i m) :
    Vigil i n := by
  induction hrun with
  | refl m => exact hm
  | next hk hrun ih => exact ih (hk.phase hphase) (hk.vigil hphase hm)

/-- Before the completion nothing on the agenda wakes. -/
theorem Vigil.asleep_of_pending (hm : Vigil i m) (hpending : ¬ m.world.IsSettled (.promise i)) :
    ∀ work ∈ m.agenda, work.wakes? ≠ some i := by
  cases hm with
  | asleep _ hagenda => exact hagenda
  | roused base hs => exact absurd hs hpending

/-- After the completion nobody sleeps where nothing is left to be done. -/
theorem Vigil.sleeping_eq_nil (hm : Vigil i m) (hs : m.world.IsSettled (.promise i))
    (hrest : m.agenda = []) : m.sleeping i = [] := by
  cases hm with
  | asleep hpending => exact absurd hs hpending
  | roused base _ _ hstage =>
    cases hstage with
    | returning started hagenda => simp [hrest] at hagenda
    | waking started ws hagenda => simp [hrest] at hagenda
    | awake hagenda hw => rw [Machine.sleeping, summoned_eq_nil hagenda, hw]; rfl

/-- **A step keeps account of the waiters**: those that sleep, with those that a poll adds to them,
are those that are woken and those that sleep then. -/
theorem Vigil.balance (hm : Vigil i m) (hk : Next m k) :
    (sleepers i [m]).foldl enlist (m.sleeping i) = woken i [m] ++ k.sleeping i := by
  unfold Machine.sleeping
  cases hk.stir i with
  | idle new hw hagenda hnew hhead hpoll =>
    have hsame : summoned i m.agenda = summoned i m.agenda.tail := by
      cases ha : m.agenda with
      | nil => rfl
      | cons first rest =>
        have hfirst : summoned i [first] = [] :=
          summoned_eq_nil fun work hwork => by
            rw [List.mem_singleton.mp hwork]
            exact hhead first (by rw [ha]; rfl)
        exact (summoned_append i [first] rest).trans (by rw [hfirst]; rfl)
    rw [sleepers_singleton_of_ne hpoll, woken_singleton_of_ne hhead, hw, hagenda, summoned_append,
      summoned_eq_nil hnew, hsame]
    rfl
  | polled w hpoll hresult hw hagenda =>
    have hpending := not_isSettled_of_result? hresult
    have hagenda' := hm.asleep_of_pending hpending
    rw [sleepers_singleton hpoll hresult,
      woken_singleton_of_ne fun work hwork =>
        hagenda' work (List.mem_of_mem_head? hwork), hw, hagenda,
      summoned_eq_nil hagenda', summoned_eq_nil fun work hwork =>
        hagenda' work (List.mem_of_mem_tail hwork)]
    rfl
  | completed c hwon hw =>
    have hpending : ¬ m.world.IsSettled (.promise i) :=
      ((won_of_attempt? hwon).mp rfl).not_isSettled
    have hagenda' := hm.asleep_of_pending hpending
    obtain ⟨work, rest, ha, ht, -⟩ := agenda_of_attempt? hwon
    obtain ⟨-, hpoll⟩ := idle_of_target? ht
    obtain ⟨release, reply, hagenda, hrelease, hreply⟩ := hk.agenda_of_won hwon
    rw [sleepers_singleton_of_ne (by simp [poll?_eq ha, hpoll]),
      woken_singleton_of_ne fun work hwork =>
        hagenda' work (List.mem_of_mem_head? hwork), hw, hagenda,
      summoned_append, summoned_wakeAll_cons, summoned_drain_cons, summoned_append,
      summoned_eq_nil hagenda', summoned_eq_nil (by simp +contextual [hrelease]),
      summoned_eq_nil fun work hwork => Work.wakes?_ne (hreply work hwork) i,
      summoned_eq_nil fun work hwork => hagenda' work (List.mem_of_mem_tail hwork)]
    rfl
  | summoned hhead hw hagenda =>
    obtain ⟨rest, ha⟩ := List.head?_eq_some_iff.mp hhead
    have hrest : summoned i rest = [] := by
      cases hm with
      | asleep hpending hno => exact absurd rfl (hno _ (List.mem_of_mem_head? hhead))
      | roused base hs hbase hstage =>
        obtain ⟨-, rfl⟩ := List.cons.inj (ha.symm.trans (hstage.of_wakeAll hhead))
        rw [summoned_drain_cons, summoned_eq_nil hbase]
    rw [sleepers_singleton_of_ne (by simp [poll?_eq ha, Work.poll?]), hw, hagenda, ha,
      List.tail_cons, summoned_append, summoned_map_wake, summoned_wakeAll_cons, hrest]
    simp [woken, Machine.wake?, ha, Work.wake?]
  | woken w hwake hw hagenda =>
    have ha := agenda_of_wake? hwake
    have hpoll : m.poll? = none := poll?_eq ha
    have hsummoned : summoned i m.agenda = w :: summoned i m.agenda.tail :=
      (congrArg (summoned i) ha).trans (summoned_wake_cons i w _)
    rw [sleepers_singleton_of_ne (by simp [hpoll]), woken_singleton hwake, hw, hagenda, hsummoned,
      summoned_script_cons]
    rfl

/-- After the completion nobody is told to wait. -/
theorem Run.sleepers_eq_nil (hrun : Run m visited n) (hs : m.world.IsSettled (.promise i)) :
    sleepers i visited = [] := by
  induction hrun with
  | refl m => rfl
  | @next m k n visited hk hrun ih =>
    have hfirst : sleepers i [m] = [] := by
      refine sleepers_singleton_of_ne fun w _ hresult => ?_
      exact not_isSettled_of_result? hresult hs
    have hsplit : sleepers i (m :: visited) = sleepers i [m] ++ sleepers i visited :=
      sleepers_append i [m] visited
    rw [hsplit, hfirst, ih (hk.isSettled hs)]
    rfl

/-- **A run keeps account of the waiters.** -/
theorem Run.tally (hrun : Run m visited n) (hphase : ∀ j, Phase j m) (hm : Vigil i m) :
    (sleepers i visited).foldl enlist (m.sleeping i) = woken i visited ++ n.sleeping i := by
  induction hrun with
  | refl m => rfl
  | @next m k n visited hk hrun ih =>
    have hrest := ih (hk.phase hphase) (hk.vigil hphase hm)
    have hsleepers : sleepers i (m :: visited) = sleepers i [m] ++ sleepers i visited :=
      sleepers_append i [m] visited
    have hwoken : woken i (m :: visited) = woken i [m] ++ woken i visited :=
      woken_append i [m] visited
    rw [hsleepers, hwoken, List.foldl_append, hm.balance hk]
    by_cases hs : m.world.IsSettled (.promise i)
    · -- Nobody is added to those that are woken.
      rw [hrun.sleepers_eq_nil (hk.isSettled hs)] at hrest ⊢
      rw [List.append_assoc, ← hrest]
      rfl
    · have hnone : woken i [m] = [] := by
        cases hm with
        | asleep _ hagenda =>
          exact woken_singleton_of_ne fun work hwork => hagenda work (List.mem_of_mem_head? hwork)
        | roused base hs' => exact absurd hs' hs
      rw [hnone]
      exact hrest

end Vigils

/-! ## When a waker is woken -/

section Wakes

variable {m k n : Machine O} {i : Nat} {visited : List (Machine O)} {base : List (Work O)}

/-- Before its completion no callback of a promise is run. -/
theorem Run.calls_eq_nil_of_pending (hrun : Run m visited n) (hphase : ∀ j, Phase j m)
    (hn : ¬ n.world.IsSettled (.promise i)) : calls i (visited ++ [n]) = [] := by
  have hfirst {m : Machine O} {later : List (Machine O)} (hrun : Run m later n)
      (hphase : ∀ j, Phase j m) : calls i [m] = [] := by
    refine calls_singleton_of_ne fun r c hcall => hn (hrun.isSettled ?_)
    obtain ⟨q, hq, hc⟩ := (hphase i).of_call? hcall
    exact World.isSettled_iff_queue?.mpr ⟨q, c, hq, hc⟩
  induction hrun with
  | refl m => exact hfirst (.refl m) hphase
  | @next m k n visited hk hrun ih =>
    have hsplit : calls i (m :: visited ++ [n]) = calls i [m] ++ calls i (visited ++ [n]) :=
      calls_append i [m] (visited ++ [n])
    rw [hsplit, hfirst (.next hk hrun) hphase, ih (hk.phase hphase) hn hfirst]
    rfl

theorem Run.awake (hrun : Run m visited n) (hs : m.world.IsSettled (.promise i))
    (hagenda : ∀ work ∈ m.agenda, work.wakes? ≠ some i) :
    ∀ work ∈ n.agenda, work.wakes? ≠ some i := by
  induction hrun with
  | refl m => exact hagenda
  | next hk hrun ih => exact ih (hk.isSettled hs) (hk.awake hs hagenda).1

/-- Until the last waker is woken no callback is run. -/
theorem Run.calls_eq_nil_of_wake? (hrun : Run m visited n) (hphase : ∀ j, Phase j m)
    (hs : m.world.IsSettled (.promise i)) (hbase : ∀ work ∈ base, work.wakes? ≠ some i)
    (hm : Stage i base m) {w : Waker O} (hwake : n.wake? = some (i, w)) : calls i visited = [] := by
  induction hrun with
  | refl m => rfl
  | @next m k n visited hk hrun ih =>
    have hcall : ∀ r c, m.call? ≠ some (i, r, c) := by
      intro r c hcall
      obtain ⟨-, hunder⟩ := underway_of_call? hcall
      cases hm with
      | returning started hagenda hstarted hround =>
        rw [hround] at hunder
        cases r <;> cases hunder
      | waking started ws hagenda hstarted hround =>
        rw [hround] at hunder
        cases r <;> cases hunder
      | awake hagenda =>
        exact (Run.next hk hrun).awake hs hagenda _
          (List.mem_of_mem_head? (head?_of_wake? hwake)) rfl
    have hsplit : calls i (m :: visited) = calls i [m] ++ calls i visited :=
      calls_append i [m] visited
    rw [hsplit, calls_singleton_of_ne hcall, ih (hk.phase hphase) (hk.isSettled hs)
      (hk.stage hphase hs hbase hm) hwake]
    rfl

/-- The machine that comes last adds nothing if it does not call the release function. -/
theorem Released.of_concat {h : Holder} {c : Completion O} {permits : Option (Permits (Release O))}
    {ms : List (Machine O)} (hr : Released h c permits (ms ++ [m]))
    (hm : ∀ call, m.releaseCall? ≠ some (h, call)) : Released h c permits ms := by
  have hsplit (ms : List (Machine O)) :
      releaseCalls h (ms ++ [m]) = releaseCalls h ms ++ releaseCalls h [m] := List.filterMap_append
  generalize hall : ms ++ [m] = all at hr
  cases hr with
  | nothing hcalls =>
    rw [← hall, hsplit] at hcalls
    exact .nothing (List.append_eq_nil_iff.mp hcalls).1
  | call hcall hcalls =>
    cases ms with
    | nil =>
      obtain ⟨rfl, -⟩ := List.cons.inj hall
      exact absurd hcall (hm _)
    | cons next later =>
      obtain ⟨rfl, rfl⟩ := List.cons.inj hall
      exact .call hcall (List.append_eq_nil_iff.mp ((hsplit later).symm.trans hcalls)).1

/-- A waker of a promise is woken in its turn: by the call that completed the promise, when the
permits were returned, and before any callback of the promise was run. Of the call, only the other
wakers, the callbacks and the reply are still to come. -/
inductive InTurn (i : Nat) (before : List (Machine O)) (k : Machine O) : Prop
  | intro (earlier between : List (Machine O)) (first : Machine O) (c : Completion O)
      (permits : Option (Permits (Release O))) (reply : List (Work O))
      (hbefore : before = earlier ++ first :: between)
      (hwon : first.attempt? = some ⟨.promise i, c, true⟩)
      (hpermits : first.world.standing? (.promise i) = some (.pending permits))
      (hreleased : Released (.promise i) c permits between)
      (hcalls : calls i before = [])
      (hreply : ∀ work ∈ reply, work.owner? = none)
      (hagenda : k.agenda = (k.sleeping i).map (.wake i) ++ .drain i :: reply ++ first.agenda.tail)

/-- Where there are no promises yet, nobody waits for one. -/
theorem vigil_of_new {start : Machine O} (hstart : start.agenda = [])
    (hnew : start.world.promises = #[])
    (i : Nat) : Vigil i start := by
  refine .asleep (not_isSettled_of_result? ?_) fun work hwork => ?_
  · rw [World.result?, hnew]
    rfl
  · rw [hstart] at hwork
    cases hwork

/-- **Wakers are woken in their turn.** -/
theorem Run.inTurn {start : Machine O} {before : List (Machine O)} (hstart : start.agenda = [])
    (hnew : start.world.promises = #[]) (hrun : Run start before k) {w : Waker O}
    (hwake : k.wake? = some (i, w)) : InTurn i before k := by
  have hphase : ∀ j, Phase j start := phase_of_new hstart hnew
  have hasleep : Vigil i start := vigil_of_new hstart hnew i
  have htidy : start.Tidy := Machine.tidy_of_agenda_eq_nil hstart
  cases hrun.vigil hphase hasleep with
  | asleep _ hagenda => exact absurd rfl (hagenda _ (List.mem_of_mem_head? (head?_of_wake? hwake)))
  | roused _ hs =>
    obtain ⟨q, c, hq, hc⟩ := World.isSettled_iff_queue?.mp hs
    rcases hrun.exists_won hphase ⟨q, hq, hc⟩ with ⟨q', hq', -⟩ | ⟨first, hfirst, hwon⟩
    · rw [World.queue?, hnew] at hq'
      cases hq'
    · obtain ⟨earlier, between, rfl⟩ := List.append_of_mem hfirst
      obtain ⟨hearlier, next, hnext, hbetween⟩ := hrun.split
      have hphase' := hearlier.phase hphase
      obtain ⟨permits, hpermits⟩ := (won_of_attempt? hwon).mp rfl
      have hpending : ¬ first.world.IsSettled (.promise i) :=
        World.IsPending.not_isSettled ⟨permits, hpermits⟩
      obtain ⟨reply, hreply, hbase, hstage⟩ :=
        hnext.stage_of_won hphase' ((hearlier.vigil hphase hasleep).asleep_of_pending hpending) hwon
      have hs' : next.world.IsSettled (.promise i) := hnext.isSettled_of_won hwon
      obtain ⟨ws, hk, -, hw⟩ :=
        (hbetween.stage (hnext.phase hphase') hs' hbase hstage).of_wake? hwake
      have hsleeping : k.sleeping i = w :: ws := by
        rw [Machine.sleeping, hk, summoned_append, summoned_map_wake, summoned_drain_cons,
          summoned_eq_nil hbase, hw]
        simp
      obtain ⟨-, hreleased, -⟩ := hbetween.of_due (hnext.due (hearlier.tidy htidy) hpermits hwon)
      have hcalls : calls i (earlier ++ first :: between) = [] := by
        rw [List.append_cons, calls_append, hearlier.calls_eq_nil_of_pending hphase hpending,
          hbetween.calls_eq_nil_of_wake? (hnext.phase hphase') hs' hbase hstage hwake]
        rfl
      refine .intro earlier between first c permits reply rfl hwon hpermits
        (hreleased.of_concat fun call hcall => ?_) hcalls hreply ?_
      · rw [Machine.releaseCall?, hk] at hcall
        cases hcall
      · rw [hsleeping, hk]
        simp

/-- **When the call that completes a promise returns**, nobody sleeps any more. -/
theorem Next.leaves_awake (hk : Next m k) (hphase : ∀ j, Phase j m) (hm : Vigil i m)
    {c : Completion O}
    (hwon : m.attempt? = some ⟨.promise i, c, true⟩) (hrun : Run k visited n) :
    Leaves m.agenda.tail (·.sleeping i = []) (visited ++ [n]) := by
  have hpending : ¬ m.world.IsSettled (.promise i) := ((won_of_attempt? hwon).mp rfl).not_isSettled
  obtain ⟨reply, -, hbase, hstage⟩ := hk.stage_of_won hphase (hm.asleep_of_pending hpending) hwon
  obtain ⟨release, more, hagenda, -⟩ := hk.agenda_of_won hwon
  have hagenda : k.agenda = (release ++ .wakeAll i :: .drain i :: more) ++ m.agenda.tail := by
    simp [hagenda]
  refine hrun.leaves (J := fun l => (∀ j, Phase j l) ∧ l.world.IsSettled (.promise i) ∧
      Stage i (reply ++ m.agenda.tail) l) hagenda
    ⟨hk.phase hphase, hk.isSettled_of_won hwon, hstage⟩ ?_ ?_ ?_
  · rintro l l' ⟨hl, hs, hstage⟩ hl'
    exact ⟨hl'.phase hl, hl'.isSettled hs, hl'.stage hl hs hbase hstage⟩
  · rintro l ⟨-, -, hstage⟩ hreturn
    cases hstage with
    -- Before the last stage more is on the agenda than what the call found there.
    | returning started hagenda =>
      have hlength := congrArg List.length (hreturn.symm.trans hagenda)
      simp only [List.length_append, List.length_cons] at hlength
      omega
    | waking started ws hagenda =>
      have hlength := congrArg List.length (hreturn.symm.trans hagenda)
      simp only [List.length_append, List.length_cons] at hlength
      omega
    | awake hagenda hw => rw [Machine.sleeping, summoned_eq_nil hagenda, hw]; rfl
  · rintro l l' ⟨hl, hs, hstage⟩ hnone hl'
    have hbalance := (Vigil.roused _ hs hbase hstage).balance hl'
    rw [hnone, (Run.next hl' (.refl l')).sleepers_eq_nil hs] at hbalance
    exact (List.append_eq_nil_iff.mp hbalance.symm).2

end Wakes

/-! ## Waiters are woken once -/

/-- **Every waiter is woken once, in the order of first polls**, and nobody is left asleep. -/
theorem waiters_woken_once {start n : Machine O} {visited : List (Machine O)}
    (hstart : start.agenda = []) (hnew : start.world.promises = #[]) (hrun : Run start visited n)
    (i : Nat) :
    (sleepers i visited).eraseDupsBy Waker.same = woken i visited ++ n.sleeping i ∧
      (∀ (k : Machine O) (w : Waker O), k ∈ visited → k.poll? = some (i, w) →
        (k.step.last = .ok .pending ↔ k.world.result? i = none)) ∧
      (∀ (before between after : List (Machine O)) (first k : Machine O) (c : Completion O)
          (w : Waker O),
        visited = before ++ first :: between ++ k :: after →
          first.attempt? = some ⟨.promise i, c, true⟩ → k.poll? = some (i, w) →
            k.step.last = .ok (.completion c) ∧ k.step.world.promises = k.world.promises) ∧
      (∀ (before after : List (Machine O)) (k : Machine O) (w : Waker O),
        visited = before ++ k :: after → k.wake? = some (i, w) → InTurn i before k) ∧
      (∀ (before after : List (Machine O)) (k : Machine O) (c : Completion O),
        visited = before ++ k :: after → k.attempt? = some ⟨.promise i, c, true⟩ →
          Leaves k.agenda.tail (·.sleeping i = []) (after ++ [n])) ∧
      ((∀ j, (Machine.steps j n).panics = false) →
        ∃ later rest, Run n later rest ∧ rest.agenda = [] ∧
          (rest.world.IsSettled (.promise i) →
            (sleepers i (visited ++ later)).eraseDupsBy Waker.same =
              woken i (visited ++ later))) := by
  have hphase : ∀ j, Phase j start := phase_of_new hstart hnew
  have hasleep : Vigil i start := vigil_of_new hstart hnew i
  have hnobody : start.sleeping i = [] := by
    rw [Machine.sleeping, hstart, World.wakers, hnew]
    rfl
  have htally {later : List (Machine O)} {rest : Machine O} (hwhole : Run start later rest) :
      (sleepers i later).eraseDupsBy Waker.same = woken i later ++ rest.sleeping i := by
    rw [← hwhole.tally hphase hasleep, hnobody, foldl_enlist]
  refine ⟨htally hrun, fun k w _ hpoll => ?_, ?_, ?_, ?_, fun hp => ?_⟩
  · obtain ⟨-, hstep⟩ := step_of_poll? hpoll
    cases hresult : k.world.result? i with
    | none =>
      rw [hresult] at hstep
      simp [hstep.1]
    | some c =>
      rw [hresult] at hstep
      simp [hstep.1]
  · rintro before between after first k c w rfl hwon hpoll
    rw [List.append_assoc, List.cons_append] at hrun
    obtain ⟨hbefore, next, hnext, hafter⟩ := hrun.split
    obtain ⟨hbetween, -⟩ := hafter.split
    obtain ⟨permits, hpermits⟩ := (won_of_attempt? hwon).mp rfl
    have htidy : start.Tidy := Machine.tidy_of_agenda_eq_nil hstart
    obtain ⟨-, -, hstanding⟩ := hbetween.of_due (hnext.due (hbefore.tidy htidy) hpermits hwon)
    have hresult : k.world.result? i = some c := by
      rw [World.result?_eq, hstanding k (List.mem_append_right _ List.mem_cons_self)]
      rfl
    obtain ⟨-, hstep⟩ := step_of_poll? hpoll
    rw [hresult] at hstep
    exact hstep
  · rintro before after k w rfl hwake
    exact hrun.split.1.inTurn hstart hnew hwake
  · rintro before after k c rfl hwon
    obtain ⟨hbefore, next, hnext, hafter⟩ := hrun.split
    exact hnext.leaves_awake (hbefore.phase hphase) (hbefore.vigil hphase hasleep) hwon hafter
  · obtain ⟨later, j, hlater, -, hrest⟩ := exists_return (List.append_nil n.agenda).symm
    have hrest : (Machine.steps j n).agenda = [] := hrest.resolve_right (by simp [hp j])
    have hwhole := hrun.append hlater
    refine ⟨later, _, hlater, hrest, fun hs => ?_⟩
    rw [htally hwhole, (hwhole.vigil hphase hasleep).sleeping_eq_nil hs hrest, List.append_nil]

/-- Commands after which a promise that holds permits is polled from outside, two times with one
waker and a third time with another waker of the same waiter. Its release function, a waker and a
listener will poll it again. -/
def pollsEverywhere : List (Command ActionResult) :=
  [.bench (.clock (.create "clock" 7)),
    .promiseWithPermits "action" "clock" 1 0 (.act "poll" (.poll "future" "releasing" .done) .done),
    .future "action" "future",
    .poll "future" "first" (.act "poll" (.poll "future" "waking" .done) .done),
    .poll "future" "second" .done,
    .poll "future" "first" .done,
    .listen "action" "listener" (.act "poll" (.poll "future" "listening" .done) .done),
    .poll "future" "third" .done]

/-- Three waiters sleep when the promise is completed. They are woken once, and all later polls are
told the completion. -/
theorem waiters_woken_once_everywhere :
    ∃ (visited : List (Machine ActionResult)) (n : Machine ActionResult), Run newMachine visited n ∧
      (sleepers 0 visited).map (·.tag) = ["first", "second", "first", "third"] ∧
      (woken 0 visited).map (·.tag) = ["first", "second", "third"] ∧
      (sleepers 0 visited).eraseDupsBy Waker.same = woken 0 visited ∧
      (∃ k w, k ∈ visited ∧ k.poll? = some (0, w) ∧ k.world.result? 0 = none ∧
        k.step.last = .ok .pending) ∧
      (∃ before between after first k w, visited = before ++ first :: between ++ k :: after ∧
        first.attempt? = some ⟨.promise 0, .timeout, true⟩ ∧ k.poll? = some (0, w) ∧
          w.tag = "waking" ∧
        k.step.last = .ok (.completion .timeout) ∧ k.step.world.promises = k.world.promises) ∧
      (∃ before after k w, visited = before ++ k :: after ∧ k.wake? = some (0, w) ∧
        w.tag = "second" ∧
        InTurn 0 before k) ∧
      (∃ before after k, visited = before ++ k :: after ∧
        k.attempt? = some ⟨.promise 0, .timeout, true⟩ ∧
        Leaves k.agenda.tail (·.sleeping 0 = []) (after ++ [n])) ∧
      ∃ later rest, Run n later rest ∧ rest.agenda = [] ∧
        (sleepers 0 (visited ++ later)).eraseDupsBy Waker.same = woken 0 (visited ++ later) := by
  let first : Machine ActionResult :=
    { world := { (newMachine.session pollsEverywhere).2.world with log := [] }
      agenda := [.command (.settle "action" .timeout)] }
  let past := (newMachine.session pollsEverywhere).1 ++ [(newMachine.session pollsEverywhere).2]
  let future := first.step.trace 40
  let n := Machine.steps 40 first.step
  have hpast : Run newMachine past first :=
    (run_session pollsEverywhere rfl (by decide +kernel)).append
      (.next (.command (by decide +kernel) (.settle "action" .timeout) [] (.ok .nothing))
        (.refl first))
  have hlast : Run first (first :: future) n :=
    .next (.step (List.cons_ne_nil _ _) (by decide +kernel)) (run_trace (by decide +kernel))
  have hrest : n.agenda = [] := by decide +kernel
  have hrun : Run newMachine (past ++ first :: future) n := hpast.append hlast
  obtain ⟨hall, hpending, hready, hwakes, hreturns, hend⟩ := waiters_woken_once rfl rfl hrun 0
  have hsleeping : n.sleeping 0 = [] := List.length_eq_zero_iff.mp (by decide +kernel)
  rw [hsleeping, List.append_nil] at hall
  have hwon : first.attempt? = some ⟨.promise 0, .timeout, true⟩ := by
    have hfields : first.attempt?.map (fun a => (a.holder, a.completion, a.won)) =
        some (.promise 0, .timeout, true) := by decide +kernel
    obtain ⟨⟨h, c, won⟩, ha, hfields⟩ := Option.map_eq_some_iff.mp hfields
    cases hfields
    exact ha
  have hnamed {o : Option (Nat × Waker ActionResult)} {tag : String}
      (ho : o.map (fun t => (t.1, t.2.tag)) = some (0, tag)) :
        ∃ w, o = some (0, w) ∧ w.tag = tag := by
    obtain ⟨⟨j, w⟩, rfl, ht⟩ := Option.map_eq_some_iff.mp ho
    cases ht
    exact ⟨w, rfl, rfl⟩
  -- One poll comes before the completion.
  obtain ⟨k, hk, hpoll, hnone⟩ : ∃ k ∈ past,
      k.poll?.map (fun t => (t.1, t.2.tag)) = some (0, "first") ∧ k.world.result? 0 = none := by
    decide +kernel
  obtain ⟨w, hw, -⟩ := hnamed hpoll
  have hk : k ∈ past ++ first :: future := List.mem_append_left _ hk
  -- Another one comes from inside a waker.
  obtain ⟨k', hk', hpoll'⟩ : ∃ k ∈ future,
      k.poll?.map (fun t => (t.1, t.2.tag)) = some (0, "waking") := by decide +kernel
  obtain ⟨w', hw', htag'⟩ := hnamed hpoll'
  obtain ⟨between, after, hbetween⟩ := List.append_of_mem hk'
  have hcut : past ++ first :: future = past ++ first :: between ++ k' :: after := by
    rw [hbetween, List.append_assoc]
    rfl
  obtain ⟨hreply, hpromises⟩ := hready past between after first k' .timeout w' hcut hwon hw'
  -- The second waiter is woken.
  obtain ⟨l, hl, hwake⟩ : ∃ l ∈ past ++ first :: future,
      l.wake?.map (fun t => (t.1, t.2.tag)) = some (0, "second") := by decide +kernel
  obtain ⟨v, hv, htag⟩ := hnamed hwake
  obtain ⟨before, rest, hl⟩ := List.append_of_mem hl
  have hpanics (j : Nat) : (Machine.steps j n).panics = false := by
    rw [Machine.steps_of_agenda_eq_nil hrest, Machine.panics, hrest]
    rfl
  obtain ⟨later, last, hlater, hidle, hsame⟩ := hend hpanics
  have hsettled := hlater.isSettled (hlast.isSettled_of_won hwon)
  exact ⟨past ++ first :: future, n, hrun, by decide +kernel, by decide +kernel, hall,
    ⟨k, w, hk, hw, hnone, (hpending k w hk hw).mpr hnone⟩,
    ⟨past, between, after, first, k', w', hcut, hwon, hw', htag', hreply, hpromises⟩,
    ⟨before, rest, l, v, hl, hv, htag, hwakes before rest l v hl hv⟩,
    ⟨past, future, first, rfl, hwon, hreturns past future first .timeout rfl hwon⟩,
    later, last, hlater, hidle, hsame hsettled⟩

end Admission.Scenario
