import Admission.Proofs.Scenario.Accounts

/-!
# Listeners are started once

A listener can be registered with a promise at any time: while it is pending, from inside the
release function, the wakers and the callbacks that its completion starts, and when all this is
over. Wherever it comes from, it is started once, with the completion that won and never before
that, and after those that were registered earlier. When the call that completes the promise returns
no listener waits any more, and one that is registered from there on is started before its
registration returns.

## Main definitions

* `registered`, `started`: the listeners that a run registers with a promise, and those that it
  starts
* `Machine.listening`: the listeners that are still to be started

## Main results

* `listeners_started_once`: listeners are started once, in the order of registration
-/

namespace Admission.Scenario

variable {O : Type} [Outcome O]

/-- The listeners that are registered with a promise, the earliest first. -/
def registered (i : Nat) (visited : List (Machine O)) : List (Listener O) :=
  (registrations i visited).filterMap Callback.listener?

/-- The listeners of a promise that are started, the earliest first. -/
def started (i : Nat) (visited : List (Machine O)) : List (Listener O) :=
  ((calls i visited).map (·.1)).filterMap Callback.listener?

/-- The listeners of a promise that are still to be started. -/
def Machine.listening (m : Machine O) (i : Nat) : List (Listener O) :=
  (m.waiting i).filterMap Callback.listener?

/-- **Every listener is started once, in the order of registration.** -/
theorem listeners_started_once {start n : Machine O} {visited : List (Machine O)}
    (hstart : start.agenda = []) (hnew : start.world.promises = #[]) (hrun : Run start visited n)
    (i : Nat) :
    registered i visited = started i visited ++ n.listening i ∧
      (∀ (before after : List (Machine O)) (k : Machine O) (l : Listener O) (c : Completion O),
        visited = before ++ k :: after → k.call? = some (i, .listener l, c) →
          k.world.result? i = some c ∧
            ∃ first ∈ before, first.attempt? = some ⟨.promise i, c, true⟩) ∧
      (∀ (before after : List (Machine O)) (k : Machine O) (c : Completion O),
        visited = before ++ k :: after → k.attempt? = some ⟨.promise i, c, true⟩ →
          Leaves k.agenda.tail (·.Exhausted i c) (after ++ [n])) ∧
      (∀ (before after : List (Machine O)) (k : Machine O) (l : Listener O) (c : Completion O),
        visited = before ++ k :: after → k.Exhausted i c →
          k.registration? = some (i, .listener l) →
            ∃ next later, after ++ [n] = next :: later ∧ next.call? = some (i, .listener l, c) ∧
              next.agenda = .listener i l c :: .reply (.ok .nothing) :: k.agenda.tail ∧
              Returns k.agenda.tail (.ok .nothing) (next :: later)) ∧
      ((∀ j, (Machine.steps j n).panics = false) →
        ∃ later rest, Run n later rest ∧ rest.agenda = [] ∧
          (rest.world.IsSettled (.promise i) →
            registered i (visited ++ later) = started i (visited ++ later))) := by
  have hphase : ∀ j, Phase j start := phase_of_new hstart hnew
  have hkind : OneKind (Callback.listener? : Callback O → _) := Or.inr fun j => rfl
  refine ⟨hrun.account hkind hstart hnew i, ?_, ?_, ?_, ?_⟩
  · rintro before after k l c rfl hcall
    obtain ⟨hbefore, -⟩ := hrun.split
    have hresult := (hbefore.phase hphase i).of_call? hcall
    refine ⟨World.result?_eq_some_iff.mpr hresult, ?_⟩
    rcases hbefore.exists_won hphase hresult with ⟨q, hq, -⟩ | hfirst
    · rw [World.queue?, hnew] at hq
      cases hq
    · exact hfirst
  · rintro before after k c rfl hwon
    obtain ⟨hbefore, next, hnext, hafter⟩ := hrun.split
    exact hnext.leaves_exhausted (hbefore.phase hphase) hwon hafter
  · rintro before after k l c rfl hk hreg
    obtain ⟨hbefore, next, hnext, hafter⟩ := hrun.split
    obtain ⟨later, hlater⟩ := hafter.exists_cons
    have hagenda := hnext.late (hbefore.phase hphase) hk hreg
    refine ⟨next, later, hlater, ?_, hagenda, ?_⟩
    · rw [Machine.call?, hagenda]
      rfl
    · have hstarted : next.agenda = [Callback.work i c (.listener l)] ++
          .reply (.ok .nothing) :: k.agenda.tail := hagenda
      rw [← hlater]
      exact hafter.returns hstarted
  · intro hp
    obtain ⟨later, j, hlater, -, hrest⟩ := exists_return (List.append_nil n.agenda).symm
    have hrest : (Machine.steps j n).agenda = [] := hrest.resolve_right (by simp [hp j])
    refine ⟨later, _, hlater, hrest, fun hs => ?_⟩
    have hwhole := hrun.append hlater
    have hunder : (Machine.steps j n).underway i = [] := by rw [Machine.underway, hrest]; rfl
    have hkept := hwhole.account hkind hstart hnew i
    rwa [(hwhole.phase hphase i).waiting_eq_nil hunder hs, List.filterMap_nil,
      List.append_nil] at hkept

/-- Commands after which listeners of the first promise come from everywhere: from outside, from the
release function, a waker, a listener, a listener of a listener, and a listener of a promise that it
is linked to. -/
def listensEverywhere : List (Command ActionResult) :=
  [.bench (.clock (.create "clock" 7)),
    .promiseWithPermits "action" "clock" 1 0
      (.act "listen" (.listen "action" "released" .done) .done),
    .promise "other", .link "action" "other",
    .listen "other" "other" (.act "listen" (.listen "action" "linked" .done) .done),
    .future "action" "future",
    .poll "future" "waker" (.act "listen" (.listen "action" "woken" .done) .done),
    .listen "action" "first"
      (.act "listen" (.listen "action" "nested"
        (.act "listen" (.listen "action" "twice nested" .done) .done)) .done),
    .settle "action" .timeout]

/-- All of them are started, in the order of registration, and when the completing call returns
nothing waits any more. One more listener that comes later is started before its registration
returns. -/
theorem listeners_started_once_everywhere :
    ∃ (visited : List (Machine ActionResult)) (n : Machine ActionResult), Run newMachine visited n ∧
      (registered 0 visited).map (·.tag) =
        ["first", "released", "woken", "nested", "linked", "twice nested", "late"] ∧
      (∃ before k after first, visited = before ++ k :: after ∧
        k.call? = some (0, .listener ⟨"late", .done⟩, .timeout) ∧
          k.world.result? 0 = some .timeout ∧
        first ∈ before ∧ first.attempt? = some ⟨.promise 0, .timeout, true⟩) ∧
      (∃ before k after, visited = before ++ k :: after ∧
        k.attempt? = some ⟨.promise 0, .timeout, true⟩ ∧
        Leaves k.agenda.tail (·.Exhausted 0 .timeout) (after ++ [n])) ∧
      (∃ before k next later, visited ++ [n] = before ++ k :: next :: later ∧
        k.agenda = [.command (.listen "action" "late" .done)] ∧ k.Exhausted 0 .timeout ∧
        next.call? = some (0, .listener ⟨"late", .done⟩, .timeout) ∧
        Returns [] (.ok .nothing) (next :: later)) ∧
      ∃ later rest, Run n later rest ∧ rest.agenda = [] ∧
        registered 0 (visited ++ later) = started 0 (visited ++ later) := by
  let k : Machine ActionResult :=
    { world := { (newMachine.session listensEverywhere).2.world with log := [] }
      agenda := [.command (.listen "action" "late" .done)] }
  have hpast : Run newMachine _ k :=
    (run_session listensEverywhere rfl (by decide +kernel)).append
      (.next (.command (by decide +kernel) (.listen "action" "late" .done) []
        (.ok .nothing)) (.refl k))
  have hlast : Run k (k :: k.step :: k.step.step.trace 10) (Machine.steps 10 k.step.step) :=
    .next (.step (List.cons_ne_nil _ _) (by decide +kernel))
      (.next (.step (by decide +kernel) (by decide +kernel)) (run_trace (by decide +kernel)))
  have hrest : (Machine.steps 10 k.step.step).agenda = [] := by decide +kernel
  have hrun := hpast.append hlast
  obtain ⟨-, hcalls, hcompleted, hlate, hend⟩ := listeners_started_once rfl rfl hrun 0
  -- When the last listener comes, the promise is exhausted.
  have hresult : k.world.result? 0 = some .timeout := by decide +kernel
  obtain ⟨q, hq, hc⟩ := World.result?_eq_some_iff.mp hresult
  have hexhausted : k.Exhausted 0 .timeout :=
    (hpast.phase (phase_of_new rfl rfl) 0).exhausted hq hc rfl
  have hreg : k.registration? = some (0, .listener ⟨"late", .done⟩) := by
    have hfound : (k.world.findPromise "action").toOption = some 0 := by decide +kernel
    obtain ⟨p, hp, -⟩ := Option.map_eq_some_iff.mp hq
    rw [registration?_eq (m := k) rfl, Work.registration?, Command.registration?, hfound,
      Option.bind_some, hp]
    rfl
  obtain ⟨next, later, hnext, hcall, -, hreturns⟩ :=
    hlate _ _ k ⟨"late", .done⟩ .timeout rfl hexhausted hreg
  obtain ⟨rfl, rfl⟩ := List.cons.inj hnext
  -- It is run with the completion of an attempt that came before.
  have hcut := List.append_cons ((newMachine.session listensEverywhere).1 ++
    [(newMachine.session listensEverywhere).2]) k (k.step :: k.step.step.trace 10)
  obtain ⟨hcompletion, first, hfirst, hwon⟩ := hcalls _ _ k.step ⟨"late", .done⟩ .timeout hcut hcall
  obtain ⟨before, between, hbetween⟩ := List.append_of_mem hfirst
  have hfirst' := hcut.trans ((congrArg (· ++ _) hbetween).trans (List.append_assoc _ _ _))
  have hpanics (j : Nat) : (Machine.steps j (Machine.steps 10 k.step.step)).panics = false := by
    rw [Machine.steps_of_agenda_eq_nil hrest, Machine.panics, hrest]
    rfl
  obtain ⟨last, rest, hrun', hrest', hall⟩ := hend hpanics
  have hsettled := hrun'.isSettled (hlast.isSettled (World.isSettled_iff_queue?.mpr ⟨q, _, hq, hc⟩))
  refine ⟨_, _, hrun,
    by decide +kernel, ⟨_, k.step, _, first, hcut, hcall, hcompletion, hfirst, hwon⟩,
    ⟨before, first, _, hfirst', hwon, hcompleted _ _ first .timeout hfirst' hwon⟩,
    ⟨_, k, _, _, List.append_assoc _ _ _, rfl, hexhausted, hcall, hreturns⟩, last, rest,
      hrun', hrest',
    hall hsettled⟩

end Admission.Scenario
