import Admission.Proofs.Scenario.Calls
import Admission.Proofs.Scenario.Rounds

/-!
# The account of callbacks

Callbacks of a promise are registered, wait, and are run. Of one kind, be it listeners or links,
those that are registered first are run first, whatever phase the promise is in, so a run keeps
account: what was registered is what was run followed by what still waits. The call that completes a
promise leaves nothing behind that waits.

## Main definitions

* `registrations`, `calls`: the callbacks that a run registers with a promise, and those that it
  runs
* `Machine.waiting`: the callbacks that are still to be run
* `Machine.Exhausted`: a promise is completed and nothing waits with it

## Main results

* `Turn.balance`, `Run.balance`: a step keeps account, and so does a run
* `Phase.of_call?`, `Run.exists_won`: callbacks are run with the completion that won
* `Run.account`: what was registered is what was run, followed by what still waits
* `Next.leaves_exhausted`: when the call that completes a promise returns, nothing waits
* `Turn.late_of_exhausted`, `Next.late`: a callback that comes later is run at once
-/

namespace Admission.Scenario

variable {O : Type}

/-! ## What a run registers and what it runs -/

/-- The callbacks that a list of entries runs. -/
def taken (works : List (Work O)) : List (Callback O) :=
  works.filterMap fun work => work.call?.map (·.2.1)

section Taken

theorem taken_append (works more : List (Work O)) :
    taken (works ++ more) = taken works ++ taken more := List.filterMap_append

@[simp] theorem taken_nil : taken ([] : List (Work O)) = [] := rfl

@[simp] theorem taken_drain_cons (i : Nat) (works : List (Work O)) :
    taken (.drain i :: works) = taken works := rfl

@[simp] theorem taken_work_cons (i : Nat) (c : Completion O) (r : Callback O)
    (works : List (Work O)) :
    taken (r.work i c :: works) = r :: taken works := by
  rw [taken, List.filterMap_cons, Callback.call?_work]
  rfl

@[simp] theorem taken_map_work (i : Nat) (c : Completion O) (callbacks : List (Callback O)) :
    taken (callbacks.map (·.work i c)) = callbacks := by
  induction callbacks with
  | nil => rfl
  | cons r callbacks ih => rw [List.map_cons, taken_work_cons, ih]

end Taken

/-- A view of callbacks that shows those of one kind only. Within one kind, callbacks are run in the
order of their registration. -/
def OneKind {α : Type} (f : Callback O → Option α) : Prop :=
  (∀ l, f (.listener l) = none) ∨ ∀ j, f (.link j) = none

/-- A callback that is registered waits behind all others of its kind. -/
theorem filterMap_callbacks_add {α : Type} {f : Callback O → Option α}
    (hf : OneKind f) (q : Queue O)
    (r : Callback O) :
    (q.add r).callbacks.filterMap f = q.callbacks.filterMap f ++ [r].filterMap f := by
  have hnil {β : Type} {g : β → Callback O} (hg : ∀ b, f (g b) = none) (l : List β) :
      (l.map g).filterMap f = [] := by
    refine List.filterMap_eq_nil_iff.mpr ?_
    intro r hr
    obtain ⟨b, -, rfl⟩ := List.mem_map.mp hr
    exact hg b
  cases r with
  | listener l =>
    rcases hf with hf | hf
    · simp [Queue.callbacks, Queue.add, hnil hf, hf]
    · simp [Queue.callbacks, Queue.add, List.filterMap_cons, hnil hf]
  | link j =>
    rcases hf with hf | hf
    · simp [Queue.callbacks, Queue.add]
    · simp [Queue.callbacks, Queue.add, hf]

variable [Outcome O]

/-- The callbacks that are registered with a promise, the earliest first. -/
def registrations (i : Nat) (visited : List (Machine O)) : List (Callback O) :=
  visited.filterMap fun m => (m.registration?.filter (·.1 = i)).map (·.2)

/-- The callbacks of a promise that are run, the earliest first, each with the completion. -/
def calls (i : Nat) (visited : List (Machine O)) : List (Callback O × Completion O) :=
  visited.filterMap fun m => (m.call?.filter (·.1 = i)).map (·.2)

/-- The callbacks of a promise that are still to be run: those underway, and those that wait. -/
def Machine.waiting (m : Machine O) (i : Nat) : List (Callback O) :=
  taken (m.underway i) ++ ((m.world.queue? i).map Queue.callbacks).getD []

section Lists

variable {m : Machine O} {i : Nat} {visited : List (Machine O)}

theorem registrations_append (i : Nat) (visited later : List (Machine O)) :
    registrations i (visited ++ later) = registrations i visited ++ registrations i later :=
  List.filterMap_append

theorem calls_append (i : Nat) (visited later : List (Machine O)) :
    calls i (visited ++ later) = calls i visited ++ calls i later := List.filterMap_append

theorem registrations_singleton {r : Callback O} (h : m.registration? = some (i, r)) :
    registrations i [m] = [r] := by simp [registrations, h]

/-- What belongs to others is left out. -/
theorem filter_eq_none_of_ne {α : Type} {o : Option (Nat × α)} (h : ∀ a, o ≠ some (i, a)) :
    o.filter (·.1 = i) = none := by
  rw [Option.filter_eq_none_iff]
  rintro ⟨j, a⟩ ha
  have hne : j ≠ i := by
    rintro rfl
    exact h a ha
  simpa using hne

theorem registrations_singleton_of_ne (h : ∀ r, m.registration? ≠ some (i, r)) :
    registrations i [m] = [] := by
  simp [registrations, filter_eq_none_of_ne h]

theorem calls_singleton {r : Callback O} {c : Completion O} (h : m.call? = some (i, r, c)) :
    calls i [m] = [(r, c)] := by simp [calls, h]

theorem calls_singleton_of_ne (h : ∀ r c, m.call? ≠ some (i, r, c)) : calls i [m] = [] := by
  simp [calls, filter_eq_none_of_ne fun t : Callback O × Completion O => h t.1 t.2]

theorem waiting_eq {q : Queue O} (hq : m.world.queue? i = some q) :
    m.waiting i = taken (m.underway i) ++ q.callbacks := by
  rw [Machine.waiting, hq]
  rfl

theorem waiting_congr {k : Machine O} (hq : k.world.queue? i = m.world.queue? i)
    (hu : k.underway i = m.underway i) : k.waiting i = m.waiting i := by
  rw [Machine.waiting, Machine.waiting, hq, hu]

end Lists

section Balance

variable {m k n : Machine O} {i : Nat} {visited : List (Machine O)} {α : Type}
  {f : Callback O → Option α}

/-- A step keeps account: what waited and what it registers is what it runs and what waits then. -/
theorem Turn.balance (hf : OneKind f) (h : Turn i m k) (hm : Phase i m) :
    (m.waiting i).filterMap f ++ (registrations i [m]).filterMap f =
      ((calls i [m]).map (·.1)).filterMap f ++ (k.waiting i).filterMap f := by
  cases h with
  | idle hq hu hreg hcall =>
    rw [registrations_singleton_of_ne hreg, calls_singleton_of_ne hcall, waiting_congr hq hu]
    simp
  | made hn hk hu hreg hcall =>
    have hnone : (m.waiting i).filterMap f = (k.waiting i).filterMap f := by
      rw [Machine.waiting, hn, waiting_eq hk, hu]
      rfl
    rw [registrations_singleton_of_ne hreg, calls_singleton_of_ne hcall, hnone]
    simp
  | completed c q hwon hq hn hk hum huk hreg hcall =>
    rw [registrations_singleton_of_ne hreg, calls_singleton_of_ne hcall, waiting_eq hq,
      waiting_eq hk, hum, huk]
    simp [Queue.callbacks]
  | registered r q hreg hq hlate hk hu =>
    rw [registrations_singleton hreg,
      calls_singleton_of_ne (by simp [(call?_of_registration? hreg).1]), waiting_eq hq,
      waiting_eq hk, hu, List.filterMap_append, List.filterMap_append, filterMap_callbacks_add hf,
      List.append_assoc]
    rfl
  | late r c q hreg hq hlate hk hum huk hagenda =>
    obtain ⟨hcall, -⟩ := call?_of_registration? hreg
    obtain ⟨-, -, hnone, -⟩ := hm.of_late hq hlate hcall
    rw [registrations_singleton hreg, calls_singleton_of_ne (by simp [hcall]), waiting_eq hq,
      waiting_eq hk, hum, huk, hnone]
    simp
  | called r c hcall hq hu =>
    have hwaiting : m.waiting i = r :: k.waiting i := by
      rw [Machine.waiting, Machine.waiting, hu, taken_work_cons, hq, List.cons_append]
    rw [calls_singleton hcall,
      registrations_singleton_of_ne (by simp [registration?_of_call? hcall]), hwaiting,
      List.map_singleton, List.filterMap_nil, List.append_nil, ← List.filterMap_append]
    rfl
  | round c q hhead hq hc hd hk hum huk =>
    obtain ⟨hcall, hreg⟩ := call?_of_drain hhead
    rw [registrations_singleton_of_ne (by simp [hreg]), calls_singleton_of_ne (by simp [hcall]),
      waiting_eq hq, waiting_eq hk, hum, huk, taken_append, taken_map_work]
    simp [Queue.callbacks]
  | last c q hhead hq hc hnone hk hum huk =>
    obtain ⟨hcall, hreg⟩ := call?_of_drain hhead
    rw [registrations_singleton_of_ne (by simp [hreg]), calls_singleton_of_ne (by simp [hcall]),
      waiting_eq hq, waiting_eq hk, hum, huk]
    simp [Queue.callbacks]

/-- **A run keeps account** of the callbacks of one kind, in their order. -/
theorem Run.balance (hf : OneKind f) (hrun : Run m visited n) (hm : ∀ j, Phase j m) :
    (m.waiting i).filterMap f ++ (registrations i visited).filterMap f =
      ((calls i visited).map (·.1)).filterMap f ++ (n.waiting i).filterMap f := by
  induction hrun with
  | refl m => simp [registrations, calls]
  | @next m k n visited hk hrun ih =>
    have hturn := hk.turn hm i
    have hrest := ih (hk.phase hm)
    have hregistrations : registrations i (m :: visited) =
        registrations i [m] ++ registrations i visited := registrations_append i [m] visited
    have hcalls : calls i (m :: visited) = calls i [m] ++ calls i visited :=
      calls_append i [m] visited
    calc (m.waiting i).filterMap f ++ (registrations i (m :: visited)).filterMap f
        = ((m.waiting i).filterMap f ++ (registrations i [m]).filterMap f) ++
            (registrations i visited).filterMap f := by
          rw [hregistrations, List.filterMap_append, List.append_assoc]
      _ = ((calls i [m]).map (·.1)).filterMap f ++
            ((k.waiting i).filterMap f ++ (registrations i visited).filterMap f) := by
          rw [hturn.balance hf (hm i), List.append_assoc]
      _ = ((calls i (m :: visited)).map (·.1)).filterMap f ++ (n.waiting i).filterMap f := by
          rw [hrest, hcalls, List.map_append, List.filterMap_append, List.append_assoc]

end Balance

/-! ## Completion -/

section Completion

variable {m k n : Machine O} {i : Nat} {visited : List (Machine O)} {c : Completion O}

/-- A callback is run with the completion of its promise. -/
theorem Phase.of_call? (h : Phase i m) {r : Callback O} (hcall : m.call? = some (i, r, c)) :
    ∃ q, m.world.queue? i = some q ∧ q.result = some c := by
  obtain ⟨-, hu⟩ := underway_of_call? hcall
  cases h with
  | absent hq hu' =>
    rw [hu] at hu'
    cases hu'
  | pending q hq hn hd hu' =>
    rw [hu] at hu'
    cases hu'
  | running d q before hq hc hd hu' =>
    rw [hu] at hu'
    cases before with
    | nil => cases r <;> cases hu'
    | cons r' before =>
      obtain ⟨hwork, -⟩ := List.cons.inj hu'
      obtain ⟨rfl, rfl⟩ := Callback.eq_of_work hwork
      exact ⟨q, hq, hc⟩
  | drained d q hq hc hd hnone hu' =>
    rcases hu' with hu' | ⟨r', rest, -, hu'⟩
    · rw [hu] at hu'
      cases hu'
    · rw [hu] at hu'
      obtain ⟨hwork, -⟩ := List.cons.inj hu'
      obtain ⟨rfl, rfl⟩ := Callback.eq_of_work hwork
      exact ⟨q, hq, hc⟩

/-- A promise is completed by an attempt that wins. -/
theorem Run.exists_won (hrun : Run m visited n) (hm : ∀ j, Phase j m)
    (hn : ∃ q, n.world.queue? i = some q ∧ q.result = some c) :
    (∃ q, m.world.queue? i = some q ∧ q.result = some c) ∨
      ∃ first ∈ visited, first.attempt? = some ⟨.promise i, c, true⟩ := by
  induction hrun with
  | refl m => exact Or.inl hn
  | @next m k n visited hk hrun ih =>
    have hturn := hk.turn hm i
    rcases ih (hk.phase hm) hn with ⟨q, hq, hc⟩ | ⟨first, hfirst, hwon⟩
    · -- The completion was there before, unless this step is the attempt.
      cases hturn with
      | idle hq' => exact Or.inl ⟨q, hq'.symm.trans hq, hc⟩
      | made hn' hk' =>
        rw [hk'] at hq
        cases hq
        cases hc
      | completed d q' hwon hq' hn' hk' =>
        rw [hk'] at hq
        cases hq
        cases hc
        exact Or.inr ⟨m, List.mem_cons_self, hwon⟩
      | registered r q' hreg hq' hlate hk' =>
        rw [hk'] at hq
        cases hq
        refine Or.inl ⟨q', hq', ?_⟩
        cases r <;> exact hc
      | late r d q' hreg hq' hlate hk' => exact Or.inl ⟨q, hq'.trans (hk'.symm.trans hq), hc⟩
      | called r d hcall hq' => exact Or.inl ⟨q, hq'.symm.trans hq, hc⟩
      | round d q' hhead hq' hc' hd hk' =>
        rw [hk'] at hq
        cases hq
        exact Or.inl ⟨q', hq', hc⟩
      | last d q' hhead hq' hc' hnone hk' =>
        rw [hk'] at hq
        cases hq
        exact Or.inl ⟨q', hq', hc⟩
    · exact Or.inr ⟨first, List.mem_cons_of_mem _ hfirst, hwon⟩

/-- A promise is completed, and no listener and no link waits any more. -/
def Machine.Exhausted (m : Machine O) (i : Nat) (c : Completion O) : Prop :=
  m.world.queue? i = some ⟨some c, [], [], true⟩

/-- And so it stays. -/
theorem Turn.exhausted (h : Turn i m k) (hm : m.Exhausted i c) : k.Exhausted i c := by
  unfold Machine.Exhausted at hm ⊢
  cases h with
  | idle hq => exact hq.trans hm
  | made hn hk => rw [hm] at hn; cases hn
  | completed d q hwon hq hn hk =>
    rw [hm] at hq
    cases hq
    cases hn
  | registered r q hreg hq hlate hk =>
    rw [hm] at hq
    cases hq
    cases hlate
  | late r d q hreg hq hlate hk => exact hk.trans (hq.symm.trans hm)
  | called r d hcall hq => exact hq.trans hm
  | round d q hhead hq hc hd hk =>
    rw [hm] at hq
    cases hq
    cases hd
  | last d q hhead hq hc hnone hk =>
    rw [hm] at hq
    cases hq
    exact hk

/-- What is completed and has nothing underway is exhausted. -/
theorem Phase.exhausted (h : Phase i m) {q : Queue O} (hq : m.world.queue? i = some q)
    (hc : q.result = some c) (hu : m.underway i = []) : m.Exhausted i c := by
  cases h with
  | absent hq' => rw [hq] at hq'; cases hq'
  | pending q' hq' hn =>
    rw [hq] at hq'
    cases hq'
    rw [hc] at hn
    cases hn
  | running d q' before hq' hc' hd hu' =>
    rw [hu] at hu'
    simp at hu'
  | drained d q' hq' hc' hd hnone hu' =>
    rw [hq] at hq'
    cases hq'
    have hempty : q.listeners = [] ∧ q.links = [] := by simpa [Queue.callbacks] using hnone
    rw [Machine.Exhausted, hq, ← hc, ← hd, ← hempty.1, ← hempty.2]

end Completion

/-! ## Runs from the start -/

section Starts

variable {start n : Machine O} {visited : List (Machine O)} {i : Nat}

/-- Where there are no promises yet, none is in any phase. -/
theorem phase_of_new (hstart : start.agenda = []) (hnew : start.world.promises = #[]) (i : Nat) :
    Phase i start := by
  refine .absent ?_ ?_
  · rw [World.queue?, hnew]
    rfl
  · rw [Machine.underway, hstart]
    rfl

/-- **What was registered is what was run, followed by what still waits.** -/
theorem Run.account {α : Type} {f : Callback O → Option α} (hf : OneKind f)
    (hstart : start.agenda = []) (hnew : start.world.promises = #[]) (hrun : Run start visited n)
    (i : Nat) :
    (registrations i visited).filterMap f =
      ((calls i visited).map (·.1)).filterMap f ++ (n.waiting i).filterMap f := by
  have hwaiting : start.waiting i = [] := by
    rw [Machine.waiting, World.queue?, hnew, Machine.underway, hstart]
    rfl
  have hkept := hrun.balance (i := i) hf (phase_of_new hstart hnew)
  rwa [hwaiting, List.filterMap_nil, List.nil_append] at hkept

/-- Nothing waits with a promise that was completed when nothing is underway for it. -/
theorem Phase.waiting_eq_nil {m : Machine O} (hphase : Phase i m) (hu : m.underway i = [])
    (hs : m.world.IsSettled (.promise i)) : m.waiting i = [] := by
  obtain ⟨q, c, hq, hc⟩ := World.isSettled_iff_queue?.mp hs
  have hexhausted : m.world.queue? i = some _ := hphase.exhausted hq hc hu
  rw [waiting_eq hexhausted, hu]
  rfl

end Starts

/-! ## When a call returns -/

section Attempts

variable {m k n : Machine O} {i : Nat} {visited : List (Machine O)} {c : Completion O}

/-- **When the call that completes a promise returns**, nothing waits with the promise any more. -/
theorem Next.leaves_exhausted (hk : Next m k) (hm : ∀ j, Phase j m)
    (hwon : m.attempt? = some ⟨.promise i, c, true⟩) (hrun : Run k visited n) :
    Leaves m.agenda.tail (·.Exhausted i c) (visited ++ [n]) := by
  have hpending : m.world.IsPending (.promise i) := (won_of_attempt? hwon).mp rfl
  have ⟨permits, hs⟩ := hpending
  obtain ⟨hstanding, reply, hagenda, -⟩ := hk.of_won hwon hs
  let standing := (Holder.promise i).settled permits c
  refine hrun.leaves (J := fun l => (∀ j, Phase j l) ∧
    l.world.standing? (.promise i) = some standing)
    hagenda ⟨hk.phase hm, hstanding⟩ ?_ ?_ ?_
  · rintro l l' ⟨hphase, hl⟩ hl'
    exact ⟨hl'.phase hphase, hl'.standing_of_settled hl (status_settled_ne _ _ _)⟩
  · rintro l ⟨hphase, hl⟩ hreturn
    have hresult : l.world.result? i = some c := by rw [World.result?_eq, hl]; rfl
    obtain ⟨q, hq, hc⟩ := World.result?_eq_some_iff.mp hresult
    -- What stands behind the attempt runs no callback of the promise, which was pending until now.
    exact (hphase i).exhausted hq hc ((hm i).underway_of_tail hpending hreturn)
  · rintro l l' ⟨hphase, -⟩ hx hl'
    exact (hl'.turn hphase i).exhausted hx

/-- A callback that is registered with an exhausted promise runs before the call returns. -/
theorem Turn.late_of_exhausted (h : Turn i m k) (hx : m.Exhausted i c) {r : Callback O}
    (hreg : m.registration? = some (i, r)) :
    k.agenda = r.work i c :: .reply (.ok .nothing) :: m.agenda.tail := by
  unfold Machine.Exhausted at hx
  cases h with
  | idle hq hu hnot => exact absurd hreg (hnot r)
  | made hn hk hu hnot => exact absurd hreg (hnot r)
  | completed d q hwon hq hn hk hum huk hnot => exact absurd hreg (hnot r)
  | registered r' q hreg' hq hlate =>
    rw [hx] at hq
    cases hq
    cases hlate
  | late r' d q hreg' hq hlate hk hum huk hagenda =>
    rw [hreg] at hreg'
    cases hreg'
    rw [hx] at hq
    cases hq
    cases hlate
    exact hagenda
  | called r' d hcall =>
    rw [registration?_of_call? hcall] at hreg
    cases hreg
  | round d q hhead =>
    rw [(call?_of_drain hhead).2] at hreg
    cases hreg
  | last d q hhead =>
    rw [(call?_of_drain hhead).2] at hreg
    cases hreg

theorem Next.late (hk : Next m k) (hm : ∀ j, Phase j m) (hx : m.Exhausted i c) {r : Callback O}
    (hreg : m.registration? = some (i, r)) :
    k.agenda = r.work i c :: .reply (.ok .nothing) :: m.agenda.tail :=
  (hk.turn hm i).late_of_exhausted hx hreg

end Attempts

end Admission.Scenario
