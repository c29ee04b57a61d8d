import Admission.Proofs.Scenario.Callbacks

/-!
# What a step does to the callbacks of promises

A promise goes through phases. While it is pending its callbacks wait. Its completion starts a
round, which takes the callbacks that wait by then; the entry that starts the next round stands
behind them, so that callbacks registered meanwhile are found. The round that finds none ends this,
and a callback that comes later runs at once.

A step changes one promise at most. Either it registers a callback, which then waits or runs at
once, or it completes the promise, or it starts a round. All others stay as they are.

## Main definitions

* `Writes`: a step that changes how far the callbacks of one promise are
* `Phase`: how far a promise is
* `Regular`: what a step needs to find
* `Deed`: what a step does to the callbacks of all promises
* `Turn`: what it does to those of one promise

## Main results

* `Next.deed`, `Next.turn`: what comes next does one of these things
* `Turn.phase`, `Next.phase`, `Run.phase`: the phases go on
* `Run.sound`: every name of a promise leads to one
-/

namespace Admission.Scenario

variable {O : Type} [Outcome O]

/-! ## Steps that change a promise -/

/-- A step that changes how far the callbacks of one promise are, and puts entries on the agenda. -/
structure Writes (i : Nat) (q : Queue O) (new : List (Work O)) (m n : Machine O) : Prop where
  queue : ∀ j, n.world.queue? j = if j = i then some q else m.world.queue? j
  names : ∀ id j, n.world.findPromise id = .ok j → m.world.findPromise id = .ok j
  agenda : n.agenda = new ++ m.agenda

namespace Writes

variable {m n : Machine O} {i : Nat} {q : Queue O} {new : List (Work O)}

theorem answer (h : Writes i q new m n) (r : Reply O) : Writes i q new m (n.answer r) :=
  ⟨h.queue, h.names, h.agenda⟩

theorem retire (h : Writes i q new m n) : Writes i q new m n.retire := by
  obtain ⟨services, log, hn⟩ := n.retire_eq
  rw [hn]
  exact ⟨h.queue, h.names, h.agenda⟩

theorem storePromise {p : ScenarioPromise O} (hp : m.world.promises[i]? = some p)
    (p' : ScenarioPromise O) (new : List (Work O)) :
    Writes i (promiseQueue p') new m ({ m with world := m.world.storePromise i p' }.push new) :=
  ⟨World.queue?_storePromise hp p', fun _ _ h => h, rfl⟩

theorem modifyPromise {p : ScenarioPromise O} (hp : m.world.promises[i]? = some p)
    (f : ScenarioPromise O → ScenarioPromise O) :
    Writes i (promiseQueue (f p)) [] m { m with world := m.world.modifyPromise i f } :=
  ⟨World.queue?_modifyPromise hp f, fun _ _ h => h, rfl⟩

/-- What is only put on the agenda changes nothing about the promise. -/
theorem push (hq : m.world.queue? i = some q) (new : List (Work O)) :
    Writes i q new m (m.push new) := by
  refine ⟨fun j => ?_, fun _ _ h => h, rfl⟩
  split
  · rename_i hj
    rw [hj]
    exact hq
  · rfl

/-- An attempt that wins. -/
theorem settle {q : Queue O} (hq : m.world.queue? i = some q) (hn : q.result = none)
    (c : Completion O) :
    ∃ release, Writes i { q with result := some c } (release ++ [.wakeAll i, .drain i]) m
        (m.settle (.promise i) c).2 ∧ ∀ work ∈ release, work.runs? = none := by
  obtain ⟨p, hp, rfl⟩ := Option.map_eq_some_iff.mp hq
  refine ⟨(p.permits.map fun k => Work.release (.promise i) k c.outcome).toList, ?_, ?_⟩
  · have hsettle : (m.settle (.promise i) c).2 =
        { m with world := m.world.storePromise i { p with result := some c } }.push
          (Machine.afterSettle i p.permits c) := by
      have hnone : p.result = none := hn
      simp only [Machine.settle, Machine.settlePromise, World.settlePromise, hp, Promise.settle,
        hnone, Option.map_some]
    rw [hsettle]
    exact storePromise hp { p with result := some c } _
  · intro work hwork
    rw [Option.mem_toList, Option.map_eq_some_iff] at hwork
    obtain ⟨k, -, rfl⟩ := hwork
    rfl

end Writes

/-! ## The phases of a promise -/

/-- How far a promise is. While it is pending its callbacks wait. Once it is completed they are run
in rounds, and what is left of a round stands before the entry that starts the next one. When all
have been run, a callback that is registered runs at once. -/
inductive Phase (i : Nat) (m : Machine O) : Prop
  | absent (hq : m.world.queue? i = none) (hu : m.underway i = [])
  | pending (q : Queue O) (hq : m.world.queue? i = some q) (hn : q.result = none)
      (hd : q.drained = false) (hu : m.underway i = [])
  | running (c : Completion O) (q : Queue O) (before : List (Callback O))
      (hq : m.world.queue? i = some q) (hc : q.result = some c) (hd : q.drained = false)
      (hu : m.underway i = before.map (·.work i c) ++ [.drain i])
  | drained (c : Completion O) (q : Queue O)
      (hq : m.world.queue? i = some q) (hc : q.result = some c) (hd : q.drained = true)
      (hnone : q.callbacks = [])
      (hu : m.underway i = [] ∨
        ∃ (r : Callback O) (rest : List (Work O)), m.agenda = r.work i c :: rest ∧
          m.underway i = [r.work i c])

/-- While a promise is pending, nothing is underway for it. -/
theorem Phase.of_pending {m : Machine O} {i : Nat} {q : Queue O} (h : Phase i m)
    (hq : m.world.queue? i = some q) (hn : q.result = none) :
    q.drained = false ∧ m.underway i = [] := by
  have hnot {c : Completion O} {q' : Queue O} (hq' : m.world.queue? i = some q')
      (hc : q'.result = some c) : False := by
    rw [hq] at hq'
    cases hq'
    rw [hn] at hc
    cases hc
  cases h with
  | absent hq' hu =>
    rw [hq] at hq'
    cases hq'
  | pending q' hq' hn' hd hu =>
    rw [hq] at hq'
    cases hq'
    exact ⟨hd, hu⟩
  | running c q' before hq' hc hd hu => exact (hnot hq' hc).elim
  | drained c q' hq' hc hd hnone hu => exact (hnot hq' hc).elim

/-- So nothing is underway for it either where the first entry of the agenda is done. -/
theorem Phase.underway_of_tail {m n : Machine O} {i : Nat} (h : Phase i m)
    (hp : m.world.IsPending (.promise i)) (hn : n.agenda = m.agenda.tail) : n.underway i = [] := by
  obtain ⟨q, hq, hpending⟩ := World.isPending_iff_queue?.mp hp
  obtain ⟨-, hunder⟩ := h.of_pending hq hpending
  rw [Machine.underway, List.filter_eq_nil_iff] at hunder ⊢
  rw [hn]
  exact fun work hwork => hunder work (List.mem_of_mem_tail hwork)

/-- When a round begins, the promise is completed, and nothing of the round before is left. -/
theorem Phase.of_drain {m : Machine O} {i : Nat} (h : Phase i m)
    (hhead : m.agenda.head? = some (.drain i)) :
    ∃ c q, m.world.queue? i = some q ∧ q.result = some c ∧ q.drained = false ∧
      m.underway i = [.drain i] := by
  obtain ⟨rest, hm⟩ : ∃ rest, m.agenda = .drain i :: rest := by
    cases hm : m.agenda with
    | nil => rw [hm] at hhead; cases hhead
    | cons work rest => rw [hm] at hhead; cases hhead; exact ⟨rest, rfl⟩
  have hunder : ∃ more, m.underway i = .drain i :: more := by
    rw [Machine.underway, hm]
    exact ⟨_, List.filter_cons_of_pos (by simp [Work.runs?])⟩
  obtain ⟨more, hunder⟩ := hunder
  cases h with
  | absent hq hu =>
    rw [hunder] at hu
    cases hu
  | pending q hq hn hd hu =>
    rw [hunder] at hu
    cases hu
  | running c q before hq hc hd hu =>
    cases before with
    | nil => exact ⟨c, q, hq, hc, hd, hu⟩
    | cons r before =>
      rw [hunder] at hu
      cases r with
      | listener l => cases hu
      | link j => cases hu
  | drained c q hq hc hd hnone hu =>
    rcases hu with hu | ⟨r, rest', hm', hu⟩
    · rw [hunder] at hu
      cases hu
    · rw [hm] at hm'
      cases r with
      | listener l => cases hm'
      | link j => cases hm'

/-- What a step needs to find. Nothing is underway for a pending promise. A round begins with a
promise that is completed, and with nothing left of the round before. A callback that is registered
late finds nothing left of the others. -/
structure Regular (i : Nat) (m : Machine O) : Prop where
  of_pending {q : Queue O} (hq : m.world.queue? i = some q) (hn : q.result = none) :
    q.drained = false ∧ m.underway i = []
  of_drain (hhead : m.agenda.head? = some (.drain i)) :
    ∃ c q, m.world.queue? i = some q ∧ q.result = some c ∧ q.drained = false ∧
      m.underway i = [.drain i]
  of_late {q : Queue O} {c : Completion O} (hq : m.world.queue? i = some q)
    (hlate : q.late? = some c)
    (hcall : m.call? = none) :
    q.result = some c ∧ q.drained = true ∧ q.callbacks = [] ∧ m.underway i = []

/-- **What a step does to the callbacks of promises.** -/
inductive Deed (m k : Machine O) : Prop
  | plain (h : Plain m.rest k) (hreg : m.registration? = none)
      (hdrain : ∀ i, m.agenda.head? ≠ some (.drain i))
  | makes (h : Makes m.rest k) (hreg : m.registration? = none) (hcall : m.call? = none)
      (hdrain : ∀ i, m.agenda.head? ≠ some (.drain i))
  | completes (i : Nat) (c : Completion O) (q : Queue O) (before after : List (Work O))
      (hwon : m.attempt? = some ⟨.promise i, c, true⟩) (hq : m.world.queue? i = some q)
      (hpending : q.result = none)
      (h : Writes i { q with result := some c } (before ++ .drain i :: after) m.rest k)
      (hbefore : ∀ work ∈ before, work.runs? = none) (hafter : ∀ work ∈ after, work.runs? = none)
      (hreg : m.registration? = none) (hdrain : ∀ i, m.agenda.head? ≠ some (.drain i))
  | registers (i : Nat) (r : Callback O) (q : Queue O) (hreg : m.registration? = some (i, r))
      (hq : m.world.queue? i = some q) (hlate : q.late? = none) (h : Writes i (q.add r) [] m.rest k)
  | late (i : Nat) (r : Callback O) (c : Completion O) (q : Queue O)
      (hreg : m.registration? = some (i, r)) (hq : m.world.queue? i = some q)
      (hlate : q.late? = some c) (h : Writes i q [r.work i c, .reply (.ok .nothing)] m.rest k)
  | round (i : Nat) (c : Completion O) (q : Queue O) (hhead : m.agenda.head? = some (.drain i))
      (hq : m.world.queue? i = some q) (hc : q.result = some c) (hsome : q.callbacks ≠ [])
      (h : Writes i { q with listeners := [], links := [] }
        (q.callbacks.map (·.work i c) ++ [.drain i]) m.rest k)
  | last (i : Nat) (c : Completion O) (q : Queue O) (hhead : m.agenda.head? = some (.drain i))
      (hq : m.world.queue? i = some q) (hc : q.result = some c) (hnone : q.callbacks = [])
      (h : Writes i { q with drained := true } [] m.rest k)

section Steps

variable {m : Machine O} {work : Work O} {rest : List (Work O)}

theorem step_eq (hm : m.agenda = work :: rest) : m.step = m.rest.perform work := by
  rw [Machine.step, Machine.rest, hm]
  rfl

theorem registration?_eq (hm : m.agenda = work :: rest) :
    m.registration? = work.registration? m.world := by
  rw [Machine.registration?, hm]
  rfl

/-- An attempt registers nothing. -/
theorem registration?_of_target? {w : World O} {cmd : Command O} {t : Holder × Completion O}
    (ht : cmd.target? w = some t) : cmd.registration? w = none := by
  cases cmd with
  | settle id c => rfl
  | complete id c => rfl
  | _ => cases ht

theorem registration?_of_attempt? {a : Attempt O} (ha : m.attempt? = some a) :
    m.registration? = none := by
  obtain ⟨work, rest, hm, ht, -⟩ := agenda_of_attempt? ha
  rw [registration?_eq hm]
  cases work with
  | command cmd => exact registration?_of_target? ht
  | _ => rfl

/-- Nor does it panic. -/
theorem panics_of_attempt? {a : Attempt O} (ha : m.attempt? = some a) : m.panics = false := by
  obtain ⟨work, rest, hm, ht, -⟩ := agenda_of_attempt? ha
  rw [Machine.panics, hm]
  cases work with
  | command cmd =>
    cases cmd with
    | settle id c => rfl
    | complete id c => rfl
    | _ => cases ht
  | _ => rfl

/-- A step that wins an attempt on a promise. -/
theorem deed_of_wins (hm : m.agenda = work :: rest) {i : Nat} {c : Completion O}
    (hwon : m.attempt? = some ⟨.promise i, c, true⟩) : Deed m m.step := by
  obtain ⟨q, hq, hpending⟩ := World.isPending_iff_queue?.mp ((won_of_attempt? hwon).mp rfl)
  obtain ⟨work', rest', hm', ht, -⟩ := agenda_of_attempt? hwon
  rw [hm] at hm'
  cases hm'
  -- All but commands attempt it at once, some with an entry of their own to follow.
  have hsettle {n : Machine O} (after : List (Work O)) (hn : n.world = m.rest.world)
      (hagenda : n.agenda = after ++ m.rest.agenda) (hafter : ∀ work ∈ after, work.runs? = none) :
      ∃ before, Writes i { q with result := some c } (before ++ .drain i :: after) m.rest
        (n.settle (.promise i) c).2 ∧ ∀ work ∈ before, work.runs? = none := by
    have hqn : n.world.queue? i = some q := by
      rw [hn]
      exact hq
    obtain ⟨release, hw, hfree⟩ := Writes.settle hqn hpending c
    refine ⟨release ++ [.wakeAll i], ⟨?_, ?_, ?_⟩, ?_⟩
    · rw [← hn]
      exact hw.queue
    · rw [← hn]
      exact hw.names
    · rw [hw.agenda, hagenda]
      simp
    · intro work hwork
      rcases List.mem_append.mp hwork with hwork | hwork
      · exact hfree work hwork
      · rw [List.mem_singleton.mp hwork]
        rfl
  have hnil : ∀ work ∈ ([] : List (Work O)), work.runs? = none := by simp
  have hreg := registration?_of_attempt? hwon
  rw [step_eq hm]
  cases work with
  | command cmd =>
    have ht' : cmd.target? m.rest.world = some (.promise i, c) := ht
    obtain ⟨before, hw, hbefore⟩ := hsettle (n := m.rest.push [.reply (.ok (.truth true))])
      [.reply (.ok (.truth true))] rfl rfl (by simp [Work.runs?])
    have hpush : (m.rest.push [.reply (.ok (.truth true))]).world.IsPending (.promise i) :=
      World.isPending_iff_queue?.mpr ⟨q, hq, hpending⟩
    obtain ⟨permits, hpermits⟩ := hpush
    obtain ⟨w, hsettled, -⟩ := Machine.settle_of_isPending hpermits c
    have hstart : m.rest.start cmd =
        ((m.rest.push [.reply (.ok (.truth true))]).settle (.promise i) c).2 := by
      rw [start_attempt ht', hsettled]
      rfl
    change Deed m (m.rest.start cmd).retire
    rw [hstart]
    exact .completes i c q before _ hwon hq hpending hw.retire hbefore (by simp [Work.runs?]) hreg
      (by simp [hm])
  | forward j target d =>
    cases ht
    obtain ⟨before, hw, hbefore⟩ := hsettle (n := m.rest) [] rfl rfl hnil
    exact .completes i c q before [] hwon hq hpending hw hbefore hnil hreg (by simp [hm])
  | fire task =>
    cases task with
    | promise j =>
      cases ht
      obtain ⟨before, hw, hbefore⟩ := hsettle (n := m.rest) [] rfl rfl hnil
      exact .completes i _ q before [] hwon hq hpending hw hbefore hnil hreg
        (by simp [hm])
    | completable j => cases ht
    | tagged tag script => cases ht
    | probe => cases ht
  | await j =>
    cases ht
    obtain ⟨before, hw, hbefore⟩ := hsettle (n := m.rest.push [.waited i m.last]) [.waited i m.last]
      rfl rfl (by simp [Work.runs?])
    exact .completes i _ q before _ hwon hq hpending hw hbefore (by simp [Work.runs?])
      hreg (by simp [hm])
  | _ => cases ht

/-- The promise that a command registers a callback with, and how it is done. -/
theorem start_of_registration? {c : Command O} {i : Nat} {r : Callback O}
    (hc : c.registration? m.world = some (i, r)) :
    ∃ p, m.world.promises[i]? = some p ∧
      m.start c =
        match p.late? with
        | some d => m.push [r.work i d, .reply (.ok .nothing)]
        | none =>
          { m with world := m.world.modifyPromise i r.addTo }.answer (.ok .nothing) := by
  cases c with
  | listen id tag script =>
    rw [Command.registration?] at hc
    cases hfound : m.world.findPromise id with
    | error e =>
      rw [hfound] at hc
      cases hc
    | ok j =>
      rw [hfound] at hc
      obtain ⟨p, hp, hc⟩ := Option.map_eq_some_iff.mp hc
      cases hc
      refine ⟨p, hp, ?_⟩
      rw [Machine.start, Machine.withPromise, hfound]
      dsimp only [Machine.withFound]
      rw [hp]
      rfl
  | link id target =>
    rw [Command.registration?] at hc
    cases hfound : m.world.findPromise id with
    | error e =>
      rw [hfound] at hc
      cases hc
    | ok k =>
      rw [hfound] at hc
      change (m.world.promises[k]?.bind _) = _ at hc
      obtain ⟨p, hp, hc⟩ := Option.bind_eq_some_iff.mp hc
      cases htarget : m.world.findPromise target with
      | error e =>
        rw [htarget] at hc
        cases hc
      | ok j =>
        rw [htarget] at hc
        cases hc
        refine ⟨p, hp, ?_⟩
        rw [Machine.start, Machine.withPromise, hfound]
        dsimp only [Machine.withFound]
        rw [hp]
        dsimp only
        rw [htarget]
        rfl
  | _ => cases hc

theorem deed_of_registration? {c : Command O} (hm : m.agenda = .command c :: rest) {i : Nat}
    {r : Callback O} (hreg : m.registration? = some (i, r)) : Deed m m.step := by
  have hc : c.registration? m.rest.world = some (i, r) := (registration?_eq hm).symm.trans hreg
  obtain ⟨p, hp, hstart⟩ := start_of_registration? hc
  have hq : m.world.queue? i = some (promiseQueue p) := Option.map_eq_some_iff.mpr ⟨p, hp, rfl⟩
  rw [step_eq hm]
  change Deed m (m.rest.start c).retire
  rw [hstart]
  cases hlate : p.late? with
  | some d => exact .late i r d _ hreg hq hlate (Writes.push (m := m.rest) hq _).retire
  | none =>
    have hadd : promiseQueue (r.addTo p) = (promiseQueue p).add r := by cases r <;> rfl
    refine .registers i r _ hreg hq hlate ?_
    rw [← hadd]
    exact ((Writes.modifyPromise hp _).answer _).retire

/-- Every other command changes nothing, or makes a promise. -/
theorem deed_of_command {c : Command O} (hm : m.agenda = .command c :: rest)
    (hp : m.panics = false) : Deed m m.step := by
  cases hreg : m.registration? with
  | some t => exact deed_of_registration? hm hreg
  | none =>
    by_cases hwins : ∃ i, Wins m.world (c.target? m.world) (.promise i)
    · obtain ⟨i, hw⟩ := hwins
      obtain ⟨d, hd⟩ := attempt?_of_wins hm hw
      exact deed_of_wins hm hd
    · have hdrain : ∀ i, m.agenda.head? ≠ some (.drain i) := by simp [hm]
      have hcall : m.call? = none := by
        rw [Machine.call?, hm]
        rfl
      rw [Machine.panics, hm] at hp
      cases hmakes : c.makesPromise with
      | true =>
        rw [step_eq hm]
        rcases start_of_makesPromise (m := m.rest) hmakes with hplain | hmade
        · exact .plain hplain.retire hreg hdrain
        · refine .makes ?_ hreg hcall hdrain
          obtain ⟨services, log, hn⟩ := (m.rest.start c).retire_eq
          change Makes m.rest (m.rest.start c).retire
          rw [hn]
          exact ⟨hmade.queue, hmade.names, hmade.agenda⟩
      | false =>
        have hplain : Plain m.rest (m.rest.start c) := by
          refine plain_start hp hmakes (fun i hw => hwins ⟨i, hw⟩) ?_
          exact (registration?_eq hm).symm.trans hreg
        rw [step_eq hm]
        exact .plain hplain.retire hreg hdrain

/-- A round of callbacks. -/
theorem deed_of_drain {i : Nat} (hm : m.agenda = .drain i :: rest) (hregular : Regular i m) :
    Deed m m.step := by
  have hhead : m.agenda.head? = some (.drain i) := by rw [hm]; rfl
  obtain ⟨c, q, hq, hc, hd, -⟩ := hregular.of_drain hhead
  obtain ⟨p, hp, rfl⟩ := Option.map_eq_some_iff.mp hq
  have hpc : p.result = some c := hc
  have hpd : p.drained = false := hd
  have hrest : m.rest.world.promises[i]? = some p := hp
  have hdrain : m.step =
      if p.takeCallbacks.1.drained then
        { m.rest with world := m.world.storePromise i p.takeCallbacks.1 }
      else
        { m.rest with world := m.world.storePromise i p.takeCallbacks.1 }.push
          (p.takeCallbacks.2.1.map (Work.listener i · c) ++
            p.takeCallbacks.2.2.map (Work.forward i · c)
            ++ [Work.drain i]) := by
    rw [step_eq hm, Machine.perform, hrest]
    dsimp only
    rw [hpc]
    rfl
  by_cases hempty : p.listeners = [] ∧ p.links = []
  · rw [Promise.takeCallbacks_of_eq_nil hempty.1 hempty.2] at hdrain
    refine .last i c _ hhead hq hc ?_ ?_
    · simp [Queue.callbacks, promiseQueue, hempty]
    · rw [hdrain]
      exact Writes.storePromise (m := m.rest) hrest { p with drained := true } []
  · have htake :
      p.takeCallbacks = ({ p with listeners := [], links := [] }, p.listeners, p.links) := by
      rw [Promise.takeCallbacks, if_neg]
      simpa using hempty
    have hsome : (promiseQueue p).callbacks ≠ [] := by
      simpa [Queue.callbacks, promiseQueue] using hempty
    have hround : p.listeners.map (Work.listener i · c) ++ p.links.map (Work.forward i · c) =
        (promiseQueue p).callbacks.map (·.work i c) := by
      rw [Queue.callbacks, List.map_append, List.map_map, List.map_map]
      rfl
    rw [htake] at hdrain
    dsimp only at hdrain
    rw [if_neg (Bool.eq_false_iff.mp hpd), hround] at hdrain
    refine .round i c _ hhead hq hc hsome ?_
    rw [hdrain]
    exact Writes.storePromise (m := m.rest) hrest { p with listeners := [], links := [] } _

/-- Whatever comes next does one of these things. -/
theorem Next.deed {k : Machine O} (hk : Next m k) (hm : ∀ i, Regular i m) : Deed m k := by
  cases hk with
  | command ha c log last =>
    refine .plain ⟨fun _ => rfl, fun _ _ h => h, [.command c], ?_, ?_⟩ ?_ ?_
    · rw [Machine.rest, ha]
      rfl
    · intro work hwork
      rw [List.mem_singleton.mp hwork]
      rfl
    · rw [Machine.registration?, ha]
      rfl
    · simp [ha]
  | step ha hp =>
    obtain ⟨work, rest, ha⟩ := List.exists_cons_of_ne_nil ha
    by_cases hcommand : ∃ c, work = .command c
    · obtain ⟨c, rfl⟩ := hcommand
      exact deed_of_command ha hp
    · by_cases hdrain : ∃ i, work = .drain i
      · obtain ⟨i, rfl⟩ := hdrain
        exact deed_of_drain ha (hm i)
      · by_cases hwins : ∃ i, Wins m.world (work.target? m.world) (.promise i)
        · obtain ⟨i, hw⟩ := hwins
          obtain ⟨d, hd⟩ := attempt?_of_wins ha hw
          exact deed_of_wins ha hd
        · refine .plain ?_ ?_ ?_
          · rw [step_eq ha]
            exact plain_perform (fun c hc => hcommand ⟨c, hc⟩) (fun i hi => hdrain ⟨i, hi⟩)
              fun i hw => hwins ⟨i, hw⟩
          · rw [registration?_eq ha]
            cases work with
            | command c => exact absurd ⟨c, rfl⟩ hcommand
            | _ => rfl
          · intro i hi
            rw [ha] at hi
            cases hi
            exact hdrain ⟨i, rfl⟩

end Steps

/-! ## One promise -/

/-- A callback that is registered late finds nothing left of the others. -/
theorem Phase.of_late {m : Machine O} {i : Nat} {q : Queue O} {c : Completion O} (h : Phase i m)
    (hq : m.world.queue? i = some q) (hlate : q.late? = some c) (hcall : m.call? = none) :
    q.result = some c ∧ q.drained = true ∧ q.callbacks = [] ∧ m.underway i = [] := by
  have hlate' : q.drained = true ∧ q.result = some c := by
    unfold Queue.late? at hlate
    split at hlate
    · exact ⟨‹_›, hlate⟩
    · cases hlate
  have hnot (hd : q.drained = false) : False := by
    rw [hd] at hlate'
    cases hlate'.1
  cases h with
  | absent hq' hu =>
    rw [hq] at hq'
    cases hq'
  | pending q' hq' hn hd hu =>
    rw [hq] at hq'
    cases hq'
    exact (hnot hd).elim
  | running c' q' before hq' hc hd hu =>
    rw [hq] at hq'
    cases hq'
    exact (hnot hd).elim
  | drained c' q' hq' hc hd hnone hu =>
    rw [hq] at hq'
    cases hq'
    refine ⟨hlate'.2, hd, hnone, ?_⟩
    rcases hu with hu | ⟨r, rest, hm, -⟩
    · exact hu
    · rw [Machine.call?, hm] at hcall
      simp at hcall

/-- In every phase of a promise a step finds what it needs. -/
theorem Phase.regular {m : Machine O} {i : Nat} (h : Phase i m) : Regular i m :=
  ⟨h.of_pending, h.of_drain, h.of_late⟩

section Underway

variable {m k : Machine O} {i : Nat}

theorem underway_of_call? {r : Callback O} {c : Completion O} (h : m.call? = some (i, r, c)) :
    m.agenda = r.work i c :: m.rest.agenda ∧ m.underway i = r.work i c :: m.rest.underway i := by
  unfold Machine.call? at h
  unfold Machine.underway Machine.rest
  cases hm : m.agenda with
  | nil =>
    rw [hm] at h
    cases h
  | cons work rest =>
    rw [hm] at h
    obtain rfl := Work.eq_of_call? h
    exact ⟨rfl, List.filter_cons_of_pos (by simp)⟩

theorem underway_of_drain (h : m.agenda.head? = some (.drain i)) :
    m.underway i = .drain i :: m.rest.underway i := by
  unfold Machine.underway Machine.rest
  cases hm : m.agenda with
  | nil =>
    rw [hm] at h
    cases h
  | cons work rest =>
    rw [hm] at h
    cases h
    exact List.filter_cons_of_pos (by simp [Work.runs?])

/-- Nothing is underway for the promise that the first entry does not show. -/
theorem underway_rest (hcall : ∀ r c, m.call? ≠ some (i, r, c))
    (hdrain : m.agenda.head? ≠ some (.drain i)) : m.rest.underway i = m.underway i := by
  unfold Machine.call? at hcall
  unfold Machine.underway Machine.rest
  cases hm : m.agenda with
  | nil => rfl
  | cons work rest =>
    rw [hm] at hcall hdrain
    have hne : work.runs? ≠ some i := by
      intro h
      cases work with
      | drain j => cases h; exact hdrain rfl
      | listener j l c => cases h; exact hcall _ _ rfl
      | forward j target c => cases h; exact hcall _ _ rfl
      | _ => cases h
    exact (List.filter_cons_of_neg (by simpa using hne)).symm

theorem Plain.underway (h : Plain m k) (i : Nat) : k.underway i = m.underway i := by
  obtain ⟨new, hnew, hfree⟩ := h.agenda
  rw [Machine.underway, hnew, List.filter_append,
    filter_runs?_eq_nil fun work hwork => by simp [hfree work hwork]]
  rfl

theorem Writes.underway {j : Nat} {q : Queue O} {new : List (Work O)} (h : Writes j q new m k)
    (i : Nat) : k.underway i = new.filter (·.runs? = some i) ++ m.underway i := by
  rw [Machine.underway, h.agenda, List.filter_append]
  rfl

end Underway

/-- What a step does to the callbacks of one promise. -/
inductive Turn (i : Nat) (m k : Machine O) : Prop
  | idle (hq : k.world.queue? i = m.world.queue? i) (hu : k.underway i = m.underway i)
      (hreg : ∀ r, m.registration? ≠ some (i, r)) (hcall : ∀ r c, m.call? ≠ some (i, r, c))
  | made (hm : m.world.queue? i = none) (hk : k.world.queue? i = some .fresh)
      (hu : k.underway i = m.underway i) (hreg : ∀ r, m.registration? ≠ some (i, r))
      (hcall : ∀ r c, m.call? ≠ some (i, r, c))
  | completed (c : Completion O) (q : Queue O) (hwon : m.attempt? = some ⟨.promise i, c, true⟩)
      (hm : m.world.queue? i = some q) (hn : q.result = none)
      (hk : k.world.queue? i = some { q with result := some c })
      (hum : m.underway i = []) (huk : k.underway i = [.drain i])
      (hreg : ∀ r, m.registration? ≠ some (i, r)) (hcall : ∀ r c, m.call? ≠ some (i, r, c))
  | registered (r : Callback O) (q : Queue O) (hreg : m.registration? = some (i, r))
      (hm : m.world.queue? i = some q) (hlate : q.late? = none)
      (hk : k.world.queue? i = some (q.add r)) (hu : k.underway i = m.underway i)
  | late (r : Callback O) (c : Completion O) (q : Queue O) (hreg : m.registration? = some (i, r))
      (hm : m.world.queue? i = some q) (hlate : q.late? = some c)
      (hk : k.world.queue? i = some q) (hum : m.underway i = []) (huk : k.underway i = [r.work i c])
      (hagenda : k.agenda = r.work i c :: .reply (.ok .nothing) :: m.agenda.tail)
  | called (r : Callback O) (c : Completion O) (hcall : m.call? = some (i, r, c))
      (hq : k.world.queue? i = m.world.queue? i) (hu : m.underway i = r.work i c :: k.underway i)
  | round (c : Completion O) (q : Queue O) (hhead : m.agenda.head? = some (.drain i))
      (hm : m.world.queue? i = some q) (hc : q.result = some c) (hd : q.drained = false)
      (hk : k.world.queue? i = some { q with listeners := [], links := [] })
      (hum : m.underway i = [.drain i])
      (huk : k.underway i = q.callbacks.map (·.work i c) ++ [.drain i])
  | last (c : Completion O) (q : Queue O) (hhead : m.agenda.head? = some (.drain i))
      (hm : m.world.queue? i = some q) (hc : q.result = some c) (hnone : q.callbacks = [])
      (hk : k.world.queue? i = some { q with drained := true })
      (hum : m.underway i = [.drain i]) (huk : k.underway i = [])

section Turns

variable {m k : Machine O} {i : Nat}

theorem call?_of_registration? {t : Nat × Callback O} (h : m.registration? = some t) :
    m.call? = none ∧ ∀ i, m.agenda.head? ≠ some (.drain i) := by
  unfold Machine.registration? at h
  unfold Machine.call?
  cases hm : m.agenda with
  | nil => simp
  | cons work rest =>
    rw [hm] at h
    cases work with
    | command c => exact ⟨rfl, by simp⟩
    | _ => cases h

theorem registration?_of_call? {t : Nat × Callback O × Completion O} (h : m.call? = some t) :
    m.registration? = none := by
  cases hreg : m.registration? with
  | none => rfl
  | some t =>
    rw [(call?_of_registration? hreg).1] at h
    cases h

theorem call?_of_drain {j : Nat} (h : m.agenda.head? = some (.drain j)) :
    m.call? = none ∧ m.registration? = none := by
  rw [Machine.call?, Machine.registration?, h]
  exact ⟨rfl, rfl⟩

/-- A step that changes nothing about a promise may still run a callback of it. -/
theorem Turn.of_frame (hq : k.world.queue? i = m.world.queue? i)
    (hu : k.underway i = m.rest.underway i) (hreg : ∀ r, m.registration? ≠ some (i, r))
    (hdrain : m.agenda.head? ≠ some (.drain i)) : Turn i m k := by
  by_cases hcall : ∃ r c, m.call? = some (i, r, c)
  · obtain ⟨r, c, hcall⟩ := hcall
    refine .called r c hcall hq ?_
    rw [hu]
    exact (underway_of_call? hcall).2
  · have hcall : ∀ r c, m.call? ≠ some (i, r, c) := fun r c h => hcall ⟨r, c, h⟩
    exact .idle hq (hu.trans (underway_rest hcall hdrain)) hreg hcall

/-- So may a step that changes another promise. -/
theorem Turn.of_writes {j : Nat} {q : Queue O} {new : List (Work O)} (h : Writes j q new m.rest k)
    (hne : i ≠ j) (hnew : ∀ work ∈ new, work.runs? ≠ some i)
    (hreg : ∀ r, m.registration? ≠ some (i, r)) (hdrain : m.agenda.head? ≠ some (.drain i)) :
    Turn i m k := by
  refine .of_frame ?_ ?_ hreg hdrain
  · rw [h.queue, if_neg hne]
    rfl
  · rw [h.underway, filter_runs?_eq_nil hnew]
    rfl

theorem turn_of_completes {c : Completion O} {q : Queue O} {before after : List (Work O)}
    (hm : Regular i m) (hwon : m.attempt? = some ⟨.promise i, c, true⟩)
    (hq : m.world.queue? i = some q)
    (hpending : q.result = none)
    (h : Writes i { q with result := some c } (before ++ .drain i :: after) m.rest k)
    (hbefore : ∀ work ∈ before, work.runs? = none) (hafter : ∀ work ∈ after, work.runs? = none)
    (hdrain : m.agenda.head? ≠ some (.drain i)) : Turn i m k := by
  obtain ⟨-, hum⟩ := hm.of_pending hq hpending
  have hcall : ∀ r d, m.call? ≠ some (i, r, d) := by
    intro r d hcall
    rw [(underway_of_call? hcall).2] at hum
    cases hum
  refine .completed c q hwon hq hpending ?_ hum ?_ (by simp [registration?_of_attempt? hwon]) hcall
  · rw [h.queue, if_pos rfl]
  · rw [h.underway, List.filter_append, List.filter_cons_of_pos (by simp),
      filter_runs?_eq_nil (by simp +contextual [hbefore]),
      filter_runs?_eq_nil (by simp +contextual [hafter]), underway_rest hcall hdrain, hum]
    rfl

theorem turn_of_round {c : Completion O} {q : Queue O} (hm : Regular i m)
    (hhead : m.agenda.head? = some (.drain i)) (hq : m.world.queue? i = some q)
    (hc : q.result = some c)
    (h : Writes i { q with listeners := [], links := [] }
      (q.callbacks.map (·.work i c) ++ [.drain i]) m.rest k) : Turn i m k := by
  obtain ⟨c', q', hq', hc', hd, hum⟩ := hm.of_drain hhead
  rw [hq] at hq'
  cases hq'
  refine .round c q hhead hq hc hd ?_ hum ?_
  · rw [h.queue, if_pos rfl]
  · have hrest : m.rest.underway i = [] := by
      rw [underway_of_drain hhead] at hum
      exact (List.cons.inj hum).2
    rw [h.underway, hrest, List.append_nil]
    exact List.filter_eq_self.mpr fun work hwork => by simp [runs?_of_mem_round hwork]

theorem Next.turn_of_regular (hk : Next m k) (hm : ∀ j, Regular j m) (i : Nat) : Turn i m k := by
  cases hk.deed hm with
  | plain h hreg hdrain =>
    exact .of_frame (h.queue i) (h.underway i) (by simp [hreg]) (hdrain i)
  | makes h hreg hcall hdrain =>
    have hu : k.underway i = m.underway i := by
      rw [← underway_rest (by simp [hcall]) (hdrain i), Machine.underway, h.agenda]
      rfl
    have hq := h.queue i
    split at hq
    · rename_i hi
      refine .made ?_ hq hu (by simp [hreg]) (by simp [hcall])
      rw [World.queue?, hi]
      simp [Machine.rest]
    · exact .idle hq hu (by simp [hreg]) (by simp [hcall])
  | completes j c q before after hwon hq hpending h hbefore hafter hreg hdrain =>
    by_cases hi : i = j
    · subst hi
      exact turn_of_completes (hm i) hwon hq hpending h hbefore hafter (hdrain i)
    · refine .of_writes h hi ?_ (by simp [hreg]) (hdrain i)
      intro work hwork
      rcases List.mem_append.mp hwork with hwork | hwork
      · simp [hbefore work hwork]
      · rcases List.mem_cons.mp hwork with rfl | hwork
        · simpa using Ne.symm hi
        · simp [hafter work hwork]
  | registers j r q hreg hq hlate h =>
    obtain ⟨hcall, hdrain⟩ := call?_of_registration? hreg
    by_cases hi : i = j
    · subst hi
      refine .registered r q hreg hq hlate ?_ ?_
      · rw [h.queue, if_pos rfl]
      · rw [h.underway, ← underway_rest (by simp [hcall]) (hdrain i)]
        rfl
    · exact .of_writes h hi (by simp) (by simp [hreg, Ne.symm hi]) (hdrain i)
  | late j r c q hreg hq hlate h =>
    obtain ⟨hcall, hdrain⟩ := call?_of_registration? hreg
    by_cases hi : i = j
    · subst hi
      obtain ⟨-, -, -, hum⟩ := (hm i).of_late hq hlate hcall
      refine .late r c q hreg hq hlate ?_ hum ?_ h.agenda
      · rw [h.queue, if_pos rfl]
      · rw [h.underway, underway_rest (by simp [hcall]) (hdrain i), hum]
        simp
    · exact .of_writes h hi (by simp [Ne.symm hi]) (by simp [hreg, Ne.symm hi]) (hdrain i)
  | round j c q hhead hq hc hsome h =>
    by_cases hi : i = j
    · subst hi
      exact turn_of_round (hm i) hhead hq hc h
    · refine .of_writes h hi ?_ (by simp [(call?_of_drain hhead).2])
        (by simpa [hhead] using Ne.symm hi)
      intro work hwork
      rw [runs?_of_mem_round hwork]
      simpa using Ne.symm hi
  | last j c q hhead hq hc hnone h =>
    by_cases hi : i = j
    · subst hi
      obtain ⟨c', q', hq', hc', hd, hum⟩ := (hm i).of_drain hhead
      refine .last c q hhead hq hc hnone ?_ hum ?_
      · rw [h.queue, if_pos rfl]
      · rw [underway_of_drain hhead] at hum
        rw [h.underway]
        exact (List.cons.inj hum).2
    · exact .of_writes h hi (by simp) (by simp [(call?_of_drain hhead).2])
        (by simpa [hhead] using Ne.symm hi)

/-- **What comes next for one promise.** -/
theorem Next.turn (hk : Next m k) (hm : ∀ j, Phase j m) (i : Nat) : Turn i m k :=
  hk.turn_of_regular (fun j => (hm j).regular) i

/-- The phases go on. -/
theorem Turn.phase (h : Turn i m k) (hm : Phase i m) : Phase i k := by
  cases h with
  | idle hq hu hreg hcall =>
    cases hm with
    | absent hq' hu' => exact .absent (hq.trans hq') (hu.trans hu')
    | pending q hq' hn hd hu' => exact .pending q (hq.trans hq') hn hd (hu.trans hu')
    | running c q before hq' hc hd hu' =>
      exact .running c q before (hq.trans hq') hc hd (hu.trans hu')
    | drained c q hq' hc hd hnone hu' =>
      refine .drained c q (hq.trans hq') hc hd hnone (Or.inl ?_)
      rcases hu' with hu' | ⟨r, rest, hagenda, -⟩
      · exact hu.trans hu'
      · refine absurd ?_ (hcall r c)
        rw [Machine.call?, hagenda]
        exact r.call?_work i c
  | made hn hk hu hreg hcall =>
    cases hm with
    | absent hq' hu' => exact .pending .fresh hk rfl rfl (hu.trans hu')
    | pending q hq' => rw [hn] at hq'; cases hq'
    | running c q before hq' => rw [hn] at hq'; cases hq'
    | drained c q hq' => rw [hn] at hq'; cases hq'
  | completed c q hwon hq hn hk hum huk hreg hcall =>
    obtain ⟨hd, -⟩ := hm.of_pending hq hn
    exact .running c { q with result := some c } [] hk rfl hd huk
  | registered r q hreg hq hlate hk hu =>
    have hresult : (q.add r).result = q.result := by cases r <;> rfl
    have hdrained : (q.add r).drained = q.drained := by cases r <;> rfl
    cases hm with
    | absent hq' => rw [hq] at hq'; cases hq'
    | pending q' hq' hn hd hu' =>
      rw [hq] at hq'
      cases hq'
      exact .pending _ hk (hresult.trans hn) (hdrained.trans hd) (hu.trans hu')
    | running c q' before hq' hc hd hu' =>
      rw [hq] at hq'
      cases hq'
      exact .running c _ before hk (hresult.trans hc) (hdrained.trans hd) (hu.trans hu')
    | drained c q' hq' hc hd =>
      rw [hq] at hq'
      cases hq'
      rw [Queue.late?, if_pos hd, hc] at hlate
      cases hlate
  | late r c q hreg hq hlate hk hum huk hagenda =>
    obtain ⟨hc, hd, hnone, -⟩ := hm.of_late hq hlate (call?_of_registration? hreg).1
    exact .drained c q hk hc hd hnone (Or.inr ⟨r, _, hagenda, huk⟩)
  | called r d hcall hq hu =>
    cases hm with
    | absent hq' hu' => rw [hu'] at hu; cases hu
    | pending q hq' hn hd hu' => rw [hu'] at hu; cases hu
    | running c q before hq' hc hd hu' =>
      rw [hu'] at hu
      cases before with
      | nil => cases r <;> cases hu
      | cons r' before => exact .running c q before (hq.trans hq') hc hd (List.cons.inj hu).2.symm
    | drained c q hq' hc hd hnone hu' =>
      refine .drained c q (hq.trans hq') hc hd hnone (Or.inl ?_)
      rcases hu' with hu' | ⟨r', rest, -, hu'⟩
      · rw [hu'] at hu
        cases hu
      · rw [hu'] at hu
        exact (List.cons.inj hu).2.symm
  | round c q hhead hq hc hd hk hum huk => exact .running c _ q.callbacks hk hc hd huk
  | last c q hhead hq hc hnone hk hum huk => exact .drained c _ hk hc rfl hnone (Or.inl huk)

theorem Next.phase (hk : Next m k) (hm : ∀ i, Phase i m) : ∀ i, Phase i k :=
  fun i => (hk.turn hm i).phase (hm i)

theorem Run.phase {n : Machine O} {visited : List (Machine O)} (hrun : Run m visited n)
    (hm : ∀ i, Phase i m) : ∀ i, Phase i n := by
  induction hrun with
  | refl m => exact hm
  | next hk hrun ih => exact ih (hk.phase hm)

/-- A promise stays where it is. -/
theorem Turn.isSome_queue? (h : Turn i m k) (hm : (m.world.queue? i).isSome) :
    (k.world.queue? i).isSome := by
  cases h with
  | idle hq => rwa [hq]
  | made hn hk => rw [hk]; rfl
  | completed c q hwon hq hn hk => rw [hk]; rfl
  | registered r q hreg hq hlate hk => rw [hk]; rfl
  | late r c q hreg hq hlate hk => rw [hk]; rfl
  | called r c hcall hq => rwa [hq]
  | round c q hhead hq hc hd hk => rw [hk]; rfl
  | last c q hhead hq hc hnone hk => rw [hk]; rfl

theorem Run.isSome_queue? {n : Machine O} {visited : List (Machine O)} (hrun : Run m visited n)
    (hm : ∀ j, Phase j m) (hi : (m.world.queue? i).isSome) : (n.world.queue? i).isSome := by
  induction hrun with
  | refl m => exact hi
  | next hk hrun ih => exact ih (hk.phase hm) ((hk.turn hm i).isSome_queue? hi)

end Turns

/-! ## Names -/

/-- Every name of a promise leads to one. -/
def World.Sound (w : World O) : Prop := ∀ id i, w.findPromise id = .ok i → (w.queue? i).isSome

theorem Next.sound_of_regular {m k : Machine O} (hk : Next m k) (hregular : ∀ i, Regular i m)
    (hm : m.world.Sound) : k.world.Sound := by
  have hstays {id : String} {i : Nat} (hi : m.world.findPromise id = .ok i) :
      (k.world.queue? i).isSome := (hk.turn_of_regular hregular i).isSome_queue? (hm id i hi)
  have hwrites {j : Nat} {q : Queue O} {new : List (Work O)} (h : Writes j q new m.rest k) :
      k.world.Sound := fun id i hi => hstays (h.names id i hi)
  cases hk.deed hregular with
  | plain h => exact fun id i hi => hstays (h.names id i hi)
  | makes h =>
    intro id i hi
    rcases h.names id i hi with hi | rfl
    · exact hstays hi
    · rw [h.queue, if_pos rfl]
      rfl
  | completes i c q before after hwon hq hpending h => exact hwrites h
  | registers i r q hreg hq hlate h => exact hwrites h
  | late i r c q hreg hq hlate h => exact hwrites h
  | round i c q hhead hq hc hsome h => exact hwrites h
  | last i c q hhead hq hc hnone h => exact hwrites h

theorem Next.sound {m k : Machine O} (hk : Next m k) (hphase : ∀ i, Phase i m)
    (hm : m.world.Sound) : k.world.Sound :=
  hk.sound_of_regular (fun i => (hphase i).regular) hm

/-- What a link is registered for is a promise. -/
theorem isSome_queue?_of_registration? {m : Machine O} (hm : m.world.Sound) {i j : Nat}
    (hreg : m.registration? = some (i, .link j)) : (m.world.queue? j).isSome := by
  obtain ⟨work, -, hreg⟩ := Option.bind_eq_some_iff.mp hreg
  cases work with
  | command cmd =>
    cases cmd with
    | listen id tag script =>
      obtain ⟨i', -, hreg⟩ := Option.bind_eq_some_iff.mp hreg
      obtain ⟨p, -, hreg⟩ := Option.map_eq_some_iff.mp hreg
      cases hreg
    | link id target =>
      obtain ⟨i', -, hreg⟩ := Option.bind_eq_some_iff.mp hreg
      obtain ⟨p, -, hreg⟩ := Option.bind_eq_some_iff.mp hreg
      obtain ⟨j', htarget, hreg⟩ := Option.map_eq_some_iff.mp hreg
      cases hreg
      cases hfound : m.world.findPromise target with
      | error e => rw [hfound] at htarget; cases htarget
      | ok j' =>
        rw [hfound] at htarget
        cases htarget
        exact hm target _ hfound
    | _ => cases hreg
  | _ => cases hreg

/-- **Names of promises never dangle**: from where each of them leads to a promise, each does so
throughout. -/
theorem Run.sound {m n : Machine O} {visited : List (Machine O)} (hrun : Run m visited n)
    (hphase : ∀ i, Phase i m) (hm : m.world.Sound) : n.world.Sound := by
  induction hrun with
  | refl m => exact hm
  | next hk hrun ih => exact ih (hk.phase hphase) (hk.sound hphase hm)

end Admission.Scenario
