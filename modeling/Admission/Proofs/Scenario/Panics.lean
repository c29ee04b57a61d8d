import Admission.Proofs.Scenario.Forwarding
import Admission.Proofs.Scenario.Listening

/-!
# Promises whose callbacks a panic has dropped

A panic unwinds the calls that are going on: it drops the agenda up to where somebody contains it.
What it drops can be the round of a promise that is being completed, with the entry that would start
the next round. Then the promise is completed, and its callbacks will never be found to be run. It
is stranded: a callback that comes later waits, and no step will ever run it. All other promises
that are completed and have nothing underway are exhausted, however often there was a panic, and a
callback that comes later runs at once.

## Main definitions

* `Onward`, `Passage`: what comes next if steps may panic, and what that passes through
* `Machine.Stranded`: a promise is completed, and nothing will run its callbacks
* `Machine.Drops`: a panic drops all that is underway for a promise
* `Fate`: how far a promise is if steps may panic

## Main results

* `passage_session`: commands from outside are a passage
* `step_of_panics`: what a panic drops
* `Passage.fate`: a promise goes through its phases or is stranded
* `Phase.stranded_of_drops`, `Passage.exists_drops`: what strands a promise
* `Passage.stranded`: a stranded promise stays so, and its callbacks wait for ever
* `callbacks_late_or_stranded`: what becomes of callbacks that are registered late
-/

namespace Admission.Scenario

variable {O : Type} [Outcome O]

/-! ## What comes next if steps may panic -/

/-- What comes next, be it a panic. -/
inductive Onward (m : Machine O) : Machine O → Prop
  | next {k : Machine O} (hk : Next m k) : Onward m k
  | panic (hp : m.panics = true) : Onward m m.step

/-- What leads from a machine to another, with the machines that it passes through, the first
included. -/
inductive Passage : Machine O → List (Machine O) → Machine O → Prop
  | refl (m : Machine O) : Passage m [] m
  | next {m k n : Machine O} {visited : List (Machine O)} (hk : Onward m k)
      (hrest : Passage k visited n) : Passage m (m :: visited) n

section Passages

variable {m k n : Machine O} {visited : List (Machine O)}

theorem onward_step (ha : m.agenda ≠ []) : Onward m m.step := by
  cases hp : m.panics with
  | false => exact .next (.step ha hp)
  | true => exact .panic hp

theorem Passage.append {before after : List (Machine O)} (hbefore : Passage m before k)
    (hafter : Passage k after n) : Passage m (before ++ after) n := by
  induction hbefore with
  | refl m => exact hafter
  | next hk hrest ih => exact .next hk (ih hafter)

theorem Passage.split {before after : List (Machine O)}
    (hpassage : Passage m (before ++ k :: after) n) :
    Passage m before k ∧ ∃ next, Onward k next ∧ Passage next after n := by
  induction before generalizing m with
  | nil =>
    cases hpassage with
    | next hk hrest => exact ⟨.refl _, _, hk, hrest⟩
  | cons first before ih =>
    cases hpassage with
    | next hk hrest =>
      obtain ⟨hbefore, hafter⟩ := ih hrest
      exact ⟨.next hk hbefore, hafter⟩

/-- The steps of the machine are a passage. -/
theorem passage_trace (j : Nat) (m : Machine O) : Passage m (m.trace j) (Machine.steps j m) := by
  induction j generalizing m with
  | zero => exact .refl m
  | succ j ih =>
    cases hm : m.agenda with
    | nil =>
      rw [Machine.steps_of_agenda_eq_nil hm, Machine.trace, hm]
      exact .refl m
    | cons work rest =>
      have ha : m.agenda ≠ [] := hm ▸ List.cons_ne_nil work rest
      rw [Machine.trace, hm, Machine.steps_succ ha]
      exact .next (onward_step ha) (ih m.step)

/-- **Commands from outside are a passage**, whether or not they panic. -/
theorem passage_session {m : Machine O} (commands : List (Command O)) (hm : m.agenda = []) :
    Passage m (m.session commands).1 (m.session commands).2 := by
  induction commands generalizing m with
  | nil => exact .refl m
  | cons c rest ih =>
    rw [Machine.session]
    exact .next (.next (.command hm c [] (.ok .nothing)))
      ((passage_trace _ _).append (ih Machine.agenda_run))

end Passages

/-! ## Panics -/

section Panics

variable {m k : Machine O} {i : Nat}

/-- Only commands panic. -/
theorem exists_of_panics (hp : m.panics = true) :
    ∃ (c : Command O) (rest : List (Work O)) (message : String), m.agenda = .command c :: rest ∧
      c.panics m.world = true ∧ m.step = (m.rest.unwind message).retire := by
  rw [Machine.panics] at hp
  cases hm : m.agenda with
  | nil =>
    rw [hm] at hp
    cases hp
  | cons work rest =>
    rw [hm] at hp
    cases work with
    | command c =>
      have hc : c.panics m.rest.world = true := hp
      obtain ⟨message, hstart⟩ := start_of_panics hc
      refine ⟨c, rest, message, rfl, hp, ?_⟩
      rw [step_eq hm, ← hstart]
      rfl
    | _ => cases hp

/-- A panic changes no promise and no name. It drops what stands next on the agenda, up to where it
is contained. -/
theorem step_of_panics (hp : m.panics = true) :
    m.step.world.promises = m.world.promises ∧ m.step.world.bench = m.world.bench ∧
      ∃ dropped, m.agenda.tail = dropped ++ m.step.agenda := by
  obtain ⟨c, rest, message, hm, -, hstep⟩ := exists_of_panics hp
  rw [hstep]
  refine ⟨Machine.promises_retire, Machine.bench_retire, ?_⟩
  rw [Machine.agenda_retire]
  exact ⟨_, List.takeWhile_append_dropWhile.symm⟩

theorem queue?_of_panics (hp : m.panics = true) (i : Nat) :
    m.step.world.queue? i = m.world.queue? i :=
  World.queue?_congr (step_of_panics hp).1 i

/-- A step that panics registers no callback and runs none. -/
theorem idle_of_panics (hp : m.panics = true) :
    m.registration? = none ∧ m.call? = none ∧ ∀ i, m.agenda.head? ≠ some (.drain i) := by
  obtain ⟨c, rest, message, hm, hc, -⟩ := exists_of_panics hp
  rw [registration?_eq hm, Machine.call?, hm]
  refine ⟨?_, rfl, fun i => by simp⟩
  cases c with
  | listen id tag script => cases hc
  | link id target => cases hc
  | _ => rfl

theorem call?_of_agenda {r : Callback O} {c : Completion O} {rest : List (Work O)}
    (hm : m.agenda = r.work i c :: rest) : m.call? = some (i, r, c) := by
  rw [Machine.call?, hm]
  exact r.call?_work i c

/-- Of what is underway for a promise, a panic drops the first part. -/
theorem underway_of_panics (hp : m.panics = true) (i : Nat) :
    ∃ dropped, m.underway i = dropped ++ m.step.underway i := by
  obtain ⟨-, -, dropped, htail⟩ := step_of_panics hp
  obtain ⟨-, hcall, hdrain⟩ := idle_of_panics hp
  refine ⟨dropped.filter (·.runs? = some i), ?_⟩
  rw [← underway_rest (by simp [hcall]) (hdrain i), Machine.underway, Machine.rest, htail,
    List.filter_append]
  rfl

/-- The step that registers a callback or runs one does not panic. -/
theorem next_of_callback (h : m.registration?.isSome ∨ m.call?.isSome) : Next m m.step := by
  refine .step (fun hnil => ?_) (Bool.eq_false_iff.mpr fun hp => ?_)
  · rw [Machine.registration?, Machine.call?, hnil] at h
    simp at h
  · obtain ⟨hreg, hcall, -⟩ := idle_of_panics hp
    simp [hreg, hcall] at h

/-- When a step panics, nothing else comes next. -/
theorem Onward.eq_of_panics (hk : Onward m k) (hp : m.panics = true) : k = m.step := by
  cases hk with
  | panic _ => rfl
  | next hk =>
    cases hk with
    | step _ hp' => rfl
    | command hm d log last =>
      rw [Machine.panics, hm] at hp
      cases hp

end Panics

/-! ## Stranded promises -/

/-- A promise is completed, nothing is underway for it, and it was never found that no callback
waits. -/
def Machine.Stranded (m : Machine O) (i : Nat) (c : Completion O) : Prop :=
  (∃ q, m.world.queue? i = some q ∧ q.result = some c ∧ q.drained = false) ∧ m.underway i = []

/-- The next step panics, and drops all that is underway for a promise. -/
def Machine.Drops (m : Machine O) (i : Nat) : Prop :=
  m.panics = true ∧ m.underway i ≠ [] ∧ m.step.underway i = []

instance (m : Machine O) (i : Nat) : Decidable (m.Drops i) :=
  inferInstanceAs (Decidable (_ ∧ _ ∧ _))

/-- How far a promise is if steps may panic. -/
def Fate (i : Nat) (m : Machine O) : Prop := Phase i m ∨ ∃ c, m.Stranded i c

section Fates

variable {m k n : Machine O} {visited : List (Machine O)} {i : Nat} {c : Completion O}

/-- A stranded promise is in no one's way. -/
theorem Machine.Stranded.regular (h : m.Stranded i c) : Regular i m := by
  obtain ⟨⟨q, hq, hc, hd⟩, hu⟩ := h
  refine ⟨fun hq' hn => ?_, fun hhead => ?_, fun hq' hlate _ => ?_⟩
  · rw [hq] at hq'
    cases hq'
    rw [hc] at hn
    cases hn
  · rw [underway_of_drain hhead] at hu
    cases hu
  · rw [hq] at hq'
    cases hq'
    rw [Queue.late?, hd] at hlate
    cases hlate

theorem Fate.regular (h : Fate i m) : Regular i m := by
  rcases h with h | ⟨c, h⟩
  · exact h.regular
  · exact h.regular

/-- A step that does not panic leaves a stranded promise stranded and runs none of its callbacks.
One that is registered waits behind the others. -/
theorem Turn.stranded (h : Turn i m k) (hm : m.Stranded i c) :
    k.Stranded i c ∧ (∀ r d, m.call? ≠ some (i, r, d)) ∧
      ∀ {α : Type} {f : Callback O → Option α}, OneKind f →
        (k.waiting i).filterMap f =
          (m.waiting i).filterMap f ++ (registrations i [m]).filterMap f := by
  obtain ⟨⟨q, hq, hc, hd⟩, hu⟩ := hm
  cases h with
  | idle hq' hu' hreg hcall =>
    refine ⟨⟨⟨q, hq'.trans hq, hc, hd⟩, hu'.trans hu⟩, hcall, fun _ => ?_⟩
    rw [waiting_congr hq' hu', registrations_singleton_of_ne hreg]
    simp
  | registered r q' hreg hq' hlate hk hu' =>
    rw [hq] at hq'
    cases hq'
    have hresult : (q.add r).result = q.result := by cases r <;> rfl
    have hdrained : (q.add r).drained = q.drained := by cases r <;> rfl
    refine ⟨⟨⟨q.add r, hk, hresult.trans hc, hdrained.trans hd⟩, hu'.trans hu⟩, ?_, fun hf => ?_⟩
    · simp [(call?_of_registration? hreg).1]
    · rw [waiting_eq hq, waiting_eq hk, hu', hu, registrations_singleton hreg]
      exact filterMap_callbacks_add hf q r
  | made hn => rw [hq] at hn; cases hn
  | completed d q' hwon hq' hn =>
    rw [hq] at hq'
    cases hq'
    rw [hc] at hn
    cases hn
  | late r d q' hreg hq' hlate =>
    rw [hq] at hq'
    cases hq'
    rw [Queue.late?, hd] at hlate
    cases hlate
  | called r d hcall hq' hu' => rw [hu] at hu'; cases hu'
  | round d q' hhead hq' hc' hd' hk hum => rw [hu] at hum; cases hum
  | last d q' hhead hq' hc' hnone hk hum => rw [hu] at hum; cases hum

/-- So does a panic. -/
theorem Machine.Stranded.of_panics (hm : m.Stranded i c) (hp : m.panics = true) :
    m.step.Stranded i c ∧ m.step.waiting i = m.waiting i := by
  obtain ⟨⟨q, hq, hc, hd⟩, hu⟩ := hm
  obtain ⟨dropped, hdropped⟩ := underway_of_panics hp i
  rw [hu] at hdropped
  have hstep : m.step.underway i = [] := (List.append_eq_nil_iff.mp hdropped.symm).2
  exact ⟨⟨⟨q, (queue?_of_panics hp i).trans hq, hc, hd⟩, hstep⟩,
    waiting_congr (queue?_of_panics hp i) (hstep.trans hu.symm)⟩

/-- A panic that leaves something underway drops only callbacks that would be run next. -/
theorem Phase.of_panics (h : Phase i m) (hp : m.panics = true) (hkeeps : ¬ m.Drops i) :
    Phase i m.step := by
  have hqueue := queue?_of_panics hp i
  obtain ⟨dropped, hdropped⟩ := underway_of_panics hp i
  have hnil (hu : m.underway i = []) : m.step.underway i = [] := by
    rw [hu] at hdropped
    exact (List.append_eq_nil_iff.mp hdropped.symm).2
  cases h with
  | absent hq hu => exact .absent (hqueue.trans hq) (hnil hu)
  | pending q hq hn hd hu => exact .pending q (hqueue.trans hq) hn hd (hnil hu)
  | running c q before hq hc hd hu =>
    rw [hu] at hdropped
    rcases List.append_eq_append_iff.mp hdropped with ⟨last, -, hlast⟩ | ⟨left, hleft, hrest⟩
    · cases last with
      | nil => exact .running c q [] (hqueue.trans hq) hc hd hlast.symm
      | cons work last =>
        -- The entry behind the callbacks of the round would be dropped, too.
        have hnone : m.step.underway i = [] :=
          (List.append_eq_nil_iff.mp (List.cons.inj hlast).2.symm).2
        exact absurd ⟨hp, by simp [hu], hnone⟩ hkeeps
    · obtain ⟨done, before, rfl, -, rfl⟩ := List.map_eq_append_iff.mp hleft
      exact .running c q before (hqueue.trans hq) hc hd hrest
  | drained c q hq hc hd hnone hu =>
    refine .drained c q (hqueue.trans hq) hc hd hnone (Or.inl ?_)
    rcases hu with hu | ⟨r, rest, hagenda, -⟩
    · exact hnil hu
    · exact absurd (call?_of_agenda hagenda) (by simp [(idle_of_panics hp).2.1])

/-- A panic that drops the last of what is underway for a promise strands it. -/
theorem Phase.stranded_of_drops (h : Phase i m) (hdrops : m.Drops i) :
    ∃ c, m.step.Stranded i c := by
  obtain ⟨hp, hsome, hnone⟩ := hdrops
  cases h with
  | absent hq hu => exact absurd hu hsome
  | pending q hq hn hd hu => exact absurd hu hsome
  | running c q before hq hc hd hu =>
    exact ⟨c, ⟨q, (queue?_of_panics hp i).trans hq, hc, hd⟩, hnone⟩
  | drained c q hq hc hd hcallbacks hu =>
    rcases hu with hu | ⟨r, rest, hagenda, -⟩
    · exact absurd hu hsome
    · exact absurd (call?_of_agenda hagenda) (by simp [(idle_of_panics hp).2.1])

theorem Machine.Stranded.result (h : m.Stranded i c) : m.world.result? i = some c := by
  obtain ⟨⟨q, hq, hc, -⟩, -⟩ := h
  exact World.result?_eq_some_iff.mpr ⟨q, hq, hc⟩

theorem Machine.Stranded.unique {d : Completion O} (h : m.Stranded i c)
    (h' : m.Stranded i d) : c = d :=
  Option.some.inj (h.result.symm.trans h'.result)

theorem Phase.not_stranded (h : Phase i m) : ¬ m.Stranded i c := by
  rintro ⟨⟨q, hq, hc, hd⟩, hu⟩
  have hx := h.exhausted hq hc hu
  rw [Machine.Exhausted, hq] at hx
  cases hx
  cases hd

/-- How far a promise is after whatever comes next. It is stranded only if it was before, or by a
panic. -/
theorem Onward.fate (hk : Onward m k) (hm : ∀ j, Fate j m) (i : Nat) :
    Fate i k ∧ (k.Stranded i c → m.Stranded i c ∨ m.Drops i) := by
  cases hk with
  | next hk =>
    have hturn := hk.turn_of_regular (fun j => (hm j).regular) i
    rcases hm i with hphase | ⟨d, hd⟩
    · exact ⟨Or.inl (hturn.phase hphase), fun hc => absurd hc (hturn.phase hphase).not_stranded⟩
    · have hkept := (hturn.stranded hd).1
      exact ⟨Or.inr ⟨d, hkept⟩, fun hc => Or.inl (hkept.unique hc ▸ hd)⟩
  | panic hp =>
    rcases hm i with hphase | ⟨d, hd⟩
    · by_cases hdrops : m.Drops i
      · exact ⟨Or.inr (hphase.stranded_of_drops hdrops), fun _ => Or.inr hdrops⟩
      · have hkept := hphase.of_panics hp hdrops
        exact ⟨Or.inl hkept, fun hc => absurd hc hkept.not_stranded⟩
    · have hkept := (hd.of_panics hp).1
      exact ⟨Or.inr ⟨d, hkept⟩, fun hc => Or.inl (hkept.unique hc ▸ hd)⟩

/-- **A promise goes through its phases or is stranded.** -/
theorem Passage.fate (hpassage : Passage m visited n) (hm : ∀ j, Fate j m) : ∀ j, Fate j n := by
  induction hpassage with
  | refl m => exact hm
  | next hk hrest ih => exact ih fun j => (hk.fate (c := .timeout) hm j).1

/-- A stranded promise was stranded before, or a panic has stranded it. -/
theorem Passage.exists_drops (hpassage : Passage m visited n) (hm : ∀ j, Fate j m)
    (hn : n.Stranded i c) : m.Stranded i c ∨ ∃ k ∈ visited, k.Drops i := by
  induction hpassage with
  | refl m => exact Or.inl hn
  | next hk hrest ih =>
    rcases ih (fun j => (hk.fate (c := c) hm j).1) hn with hstranded | ⟨l, hl, hdrops⟩
    · exact ((hk.fate hm i).2 hstranded).imp id fun hdrops => ⟨_, List.mem_cons_self, hdrops⟩
    · exact Or.inr ⟨l, List.mem_cons_of_mem _ hl, hdrops⟩

/-- **A stranded promise stays stranded.** None of its callbacks is run, and those that are
registered wait behind the others. -/
theorem Passage.stranded (hpassage : Passage m visited n) (hm : ∀ j, Fate j m)
    (hi : m.Stranded i c) :
    n.Stranded i c ∧ calls i visited = [] ∧
      ∀ {α : Type} {f : Callback O → Option α}, OneKind f →
        (n.waiting i).filterMap f =
          (m.waiting i).filterMap f ++ (registrations i visited).filterMap f := by
  induction hpassage with
  | refl m => exact ⟨hi, rfl, fun _ => by simp [registrations]⟩
  | @next m k n visited hk hrest ih =>
    have hnext : k.Stranded i c ∧ (∀ r d, m.call? ≠ some (i, r, d)) ∧
        ∀ {α : Type} {f : Callback O → Option α}, OneKind f →
          (k.waiting i).filterMap f =
            (m.waiting i).filterMap f ++ (registrations i [m]).filterMap f := by
      cases hk with
      | next hk => exact (hk.turn_of_regular (fun j => (hm j).regular) i).stranded hi
      | panic hp =>
        obtain ⟨hkept, hwaiting⟩ := hi.of_panics hp
        obtain ⟨hreg, hcall, -⟩ := idle_of_panics hp
        refine ⟨hkept, by simp [hcall], fun _ => ?_⟩
        rw [hwaiting, registrations_singleton_of_ne (by simp [hreg])]
        simp
    obtain ⟨hk', hcall, hwaiting⟩ := hnext
    obtain ⟨hn, hcalls, hmore⟩ := ih (fun j => (hk.fate (c := c) hm j).1) hk'
    have hregistrations : registrations i (m :: visited) =
        registrations i [m] ++ registrations i visited := registrations_append i [m] visited
    refine ⟨hn, ?_, fun hf => ?_⟩
    · have hsplit : calls i (m :: visited) = calls i [m] ++ calls i visited :=
        calls_append i [m] visited
      rw [hsplit, hcalls, calls_singleton_of_ne hcall]
      rfl
    · rw [hmore hf, hwaiting hf, hregistrations, List.filterMap_append, List.append_assoc]

/-- Every name of a promise leads to one, also when steps panic. -/
theorem Passage.sound (hpassage : Passage m visited n) (hm : ∀ j, Fate j m)
    (hsound : m.world.Sound) :
    n.world.Sound := by
  induction hpassage with
  | refl m => exact hsound
  | @next m k n visited hk hrest ih =>
    refine ih (fun j => (hk.fate (c := .timeout) hm j).1) ?_
    cases hk with
    | next hk => exact hk.sound_of_regular (fun j => (hm j).regular) hsound
    | panic hp =>
      intro id j hj
      rw [queue?_of_panics hp]
      refine hsound id j ?_
      rw [findPromise_eq_ok_iff] at hj ⊢
      rwa [← (step_of_panics hp).2.1]

end Fates

/-! ## Callbacks that come late -/

section Late

variable {start n : Machine O} {visited : List (Machine O)} {i : Nat} {c : Completion O}

/-- **Callbacks that come late are run at once, unless a panic has dropped the round of their
promise.** -/
theorem callbacks_late_or_stranded (hstart : start.Blank) (hpassage : Passage start visited n)
    (hresult : n.world.result? i = some c) (hover : n.underway i = []) :
    ((∃ k ∈ visited, k.Drops i) ↔ n.Stranded i c) ∧
      (¬ n.Stranded i c → ∀ r, n.registration? = some (i, r) →
        n.step.call? = some (i, r, c) ∧
          n.step.agenda = r.work i c :: .reply (.ok .nothing) :: n.agenda.tail ∧
          ∀ j, r = .link j → n.step.step.world.IsSettled (.promise j)) ∧
      (n.Stranded i c → ∀ later l, Passage n later l →
        l.Stranded i c ∧ calls i later = [] ∧
          (l.waiting i).filterMap Callback.listener? = n.listening i ++ registered i later ∧
          (l.waiting i).filterMap Callback.link? =
            (n.waiting i).filterMap Callback.link? ++ linked i later) := by
  have hnew : ∀ j, Fate j start := fun j => Or.inl (hstart.phase j)
  have hfate := hpassage.fate hnew
  refine ⟨⟨fun ⟨k, hk, hdrops⟩ => ?_, fun hn => ?_⟩, fun hn r hreg => ?_,
    fun hn later l hlater => ?_⟩
  · obtain ⟨before, after, rfl⟩ := List.append_of_mem hk
    obtain ⟨hbefore, next, hnext, hafter⟩ := hpassage.split
    have hk := hbefore.fate hnew
    -- Something was underway, so the promise was not stranded yet.
    have hphase : Phase i k := (hk i).resolve_right fun ⟨d, hd⟩ => hdrops.2.1 hd.2
    obtain ⟨d, hd⟩ := hphase.stranded_of_drops hdrops
    rw [← hnext.eq_of_panics hdrops.1] at hd
    obtain ⟨hn, -⟩ := hafter.stranded (fun j => (hnext.fate (c := c) hk j).1) hd
    exact Option.some.inj (hn.result.symm.trans hresult) ▸ hn
  · exact (hpassage.exists_drops hnew hn).resolve_left (hstart.phase i).not_stranded
  · obtain ⟨q, hq, hc⟩ := World.result?_eq_some_iff.mp hresult
    have hphase : Phase i n := (hfate i).resolve_right fun ⟨d, hd⟩ =>
      hn (Option.some.inj (hd.result.symm.trans hresult) ▸ hd)
    have hnext := next_of_callback (Or.inl (Option.isSome_of_eq_some hreg))
    have hturn := hnext.turn_of_regular fun j => (hfate j).regular
    have hagenda := (hturn i).late_of_exhausted (hphase.exhausted hq hc hover) hreg
    have hcall := call?_of_agenda hagenda
    refine ⟨hcall, hagenda, ?_⟩
    rintro j rfl
    have hj := isSome_queue?_of_registration? (hpassage.sound hnew hstart.sound) hreg
    have hforward := next_of_callback (Or.inr (Option.isSome_of_eq_some hcall))
    exact hforward.isSettled_of_call? hcall ((hturn j).isSome_queue? hj)
  · obtain ⟨hl, hcalls, hwaiting⟩ := hlater.stranded hfate hn
    exact ⟨hl, hcalls, hwaiting (Or.inr fun j => rfl), hwaiting (Or.inl fun l => rfl)⟩

end Late

/-- A promise with a listener that panics times out, and after it another one. -/
def strandingCommands : List (Command ActionResult) :=
  [.promise "faulty", .promise "external", .promise "bystander",
    .listen "faulty" "first" (.act "panic" (.panic "listener failure") .done),
    .settle "faulty" .timeout, .settle "bystander" .timeout]

/-- A listener and a link that come when the promise is done. -/
def lateCommands : List (Command ActionResult) :=
  [.listen "faulty" "late" .done, .link "faulty" "external"]

/-- The panic strands the one promise: its late listener and its late link wait for ever. A late
listener of the other promise is started by the next step. -/
theorem callbacks_late_or_stranded_apart :
    ∃ (visited later : List (Machine ActionResult)) (n l : Machine ActionResult),
      Passage newMachine visited n ∧ Passage n later l ∧ (∃ k ∈ visited, k.Drops 0) ∧
        n.agenda = [.command (.listen "bystander" "late" .done)] ∧
        n.step.call? = some (2, .listener ⟨"late", .done⟩, .timeout) ∧
        l.agenda = [] ∧ l.world.result? 0 = some .timeout ∧ calls 0 later = [] ∧
        (l.listening 0).map (·.tag) = ["late"] ∧ (l.waiting 0).filterMap Callback.link? = [1] := by
  let n : Machine ActionResult :=
    { world := { (newMachine.session strandingCommands).2.world with log := [] }
      agenda := [.command (.listen "bystander" "late" .done)] }
  have hpast : Passage newMachine _ n :=
    (passage_session strandingCommands rfl).append
      (.next (.next
        (.command (by decide +kernel) (.listen "bystander" "late" .done) [] (.ok .nothing)))
        (.refl n))
  have hrest : (Machine.steps 10 n).agenda = [] := by decide +kernel
  have hlater := (passage_trace 10 n).append (passage_session lateCommands hrest)
  obtain ⟨hdropped, -, hstranded⟩ :=
    callbacks_late_or_stranded (i := 0) (c := .timeout) blank_newMachine
    hpast (by decide +kernel) (by decide +kernel)
  obtain ⟨hapart, hlate, -⟩ := callbacks_late_or_stranded (i := 2) (c := .timeout) blank_newMachine
    hpast (by decide +kernel) (by decide +kernel)
  have hpanic : ∃ k ∈ (newMachine.session strandingCommands).1 ++
      [(newMachine.session strandingCommands).2], k.Drops 0 := by decide +kernel
  have hnone : ¬ ∃ k ∈ (newMachine.session strandingCommands).1 ++
      [(newMachine.session strandingCommands).2], k.Drops 2 := by decide +kernel
  have hreg : n.registration? = some (2, .listener ⟨"late", .done⟩) := by
    have hfound : (n.world.findPromise "bystander").toOption = some 2 := by decide +kernel
    have hresult : n.world.result? 2 = some .timeout := by decide +kernel
    obtain ⟨q, hq, -⟩ := World.result?_eq_some_iff.mp hresult
    obtain ⟨p, hp, -⟩ := Option.map_eq_some_iff.mp hq
    rw [registration?_eq (m := n) rfl, Work.registration?, Command.registration?, hfound,
      Option.bind_some, hp]
    rfl
  obtain ⟨hcall, -⟩ := hlate (fun h => hnone (hapart.mpr h)) _ hreg
  obtain ⟨hl, hcalls, hlisteners, hlinks⟩ := hstranded (hdropped.mp hpanic) _ _ hlater
  refine ⟨_, _, n, _, hpast, hlater, hpanic, rfl, hcall,
    by decide +kernel, hl.result, hcalls, ?_, ?_⟩
  · rw [Machine.listening, hlisteners]
    decide +kernel
  · rw [hlinks]
    decide +kernel

/-- The promise is done and the call that completed it was broken off, and the late listener is not
run, and the late link completes nothing. -/
theorem panic_strands_late_callbacks :
    let (visited, n) := newMachine.session (strandingCommands ++ lateCommands)
    n.agenda = [] ∧ n.world.result? 0 = some .timeout ∧
      (registered 0 visited).map (·.tag) = ["first", "late"] ∧
      (started 0 visited).map (·.tag) = ["first"] ∧
      linked 0 visited = [1] ∧ n.world.result? 1 = none := by
  decide +kernel

end Admission.Scenario
