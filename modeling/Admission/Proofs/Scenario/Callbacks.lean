import Admission.Proofs.Scenario.Calm

/-!
# Callbacks that wait and callbacks that are underway

A listener or a link waits with its promise until a round takes it, and then it is underway: an
entry of the agenda runs it. Most steps leave all this alone. They neither make nor complete a
promise, register no callback and start no round, and so they change nothing about the callbacks
that wait and put none on the agenda.

## Main definitions

* `Callback`: a listener or a link
* `Queue`, `World.queue?`: how far the callbacks of a promise are
* `Machine.underway`: the entries of the agenda that run callbacks of a promise
* `Machine.registration?`, `Machine.call?`: the callback that a step registers, or runs
* `Plain`, `Makes`: a step that leaves the callbacks alone, and one that makes a promise

## Main results

* `plain_start`, `plain_perform`: what leaves the callbacks alone
* `start_of_makesPromise`: what makes a promise
-/

namespace Admission.Scenario

variable {O : Type}

/-! ## Callbacks -/

/-- A callback of a promise: a listener, or a link to the promise at another place. -/
inductive Callback (O : Type) where
  | listener (l : Listener O)
  | link (target : Nat)

namespace Callback

/-- The entry of the agenda that runs a callback of the promise at a place. -/
def work (i : Nat) (c : Completion O) : Callback O → Work O
  | listener l => .listener i l c
  | link j => .forward i j c

/-- The listener, if the callback is one. -/
def listener? : Callback O → Option (Listener O)
  | listener l => some l
  | link _ => none

/-- A promise with the callback registered. -/
def addTo (r : Callback O) (p : ScenarioPromise O) : ScenarioPromise O :=
  match r with
  | listener l => p.listen l
  | link j => p.link j

/-- The target of a link. -/
def link? : Callback O → Option Nat
  | listener _ => none
  | link j => some j

end Callback

/-- The promise whose callbacks an entry of the agenda runs. -/
def Work.runs? : Work O → Option Nat
  | .drain i => some i
  | .listener i _ _ => some i
  | .forward i _ _ => some i
  | _ => none

/-- The callback that an entry of the agenda runs, with its promise and the completion. -/
def Work.call? : Work O → Option (Nat × Callback O × Completion O)
  | .listener i l c => some (i, .listener l, c)
  | .forward i j c => some (i, .link j, c)
  | _ => none

@[simp] theorem Work.runs?_drain (i : Nat) : (Work.drain i : Work O).runs? = some i := rfl

@[simp] theorem Work.runs?_reply (r : Reply O) : (Work.reply r).runs? = none := rfl

@[simp] theorem Callback.runs?_work (i : Nat) (c : Completion O) (r : Callback O) :
    (r.work i c).runs? = some i := by cases r <;> rfl

@[simp] theorem Callback.call?_work (i : Nat) (c : Completion O) (r : Callback O) :
    (r.work i c).call? = some (i, r, c) := by cases r <;> rfl

theorem Callback.eq_of_work {i : Nat} {c d : Completion O} {r s : Callback O}
    (h : r.work i c = s.work i d) : r = s ∧ c = d := by
  have hcalls := congrArg Work.call? h
  rw [call?_work, call?_work] at hcalls
  cases hcalls
  exact ⟨rfl, rfl⟩

theorem Work.eq_of_call? {work : Work O} {i : Nat} {r : Callback O} {c : Completion O}
    (h : work.call? = some (i, r, c)) : work = r.work i c := by
  cases work with
  | listener j l d => cases h; rfl
  | forward j k d => cases h; rfl
  | _ => cases h

/-- What belongs to no promise runs no callback of one. -/
theorem Work.runs?_eq_none {work : Work O} (h : ∀ i, work.owner? ≠ some (.promise i)) :
    work.runs? = none := by
  cases work with
  | drain i => exact absurd rfl (h i)
  | listener i l c => exact absurd rfl (h i)
  | forward i j c => exact absurd rfl (h i)
  | _ => rfl

theorem filter_runs?_eq_nil {i : Nat} {works : List (Work O)}
    (h : ∀ work ∈ works, work.runs? ≠ some i) :
    works.filter (·.runs? = some i) = [] :=
  List.filter_eq_nil_iff.mpr fun work hwork => by simpa using h work hwork

/-- All entries of a round are about one promise. -/
theorem runs?_of_mem_round {i : Nat} {c : Completion O} {callbacks : List (Callback O)}
    {work : Work O}
    (hwork : work ∈ callbacks.map (·.work i c) ++ [.drain i]) : work.runs? = some i := by
  rcases List.mem_append.mp hwork with hwork | hwork
  · obtain ⟨r, -, rfl⟩ := List.mem_map.mp hwork
    exact r.runs?_work i c
  · rw [List.mem_singleton.mp hwork]
    rfl

/-- How far the callbacks of a promise are: its completion, those that wait, and whether all have
been run. -/
structure Queue (O : Type) where
  result : Option (Completion O)
  listeners : List (Listener O)
  links : List Nat
  drained : Bool

namespace Queue

/-- The queue of a new promise. -/
def fresh : Queue O := ⟨none, [], [], false⟩

/-- The queue with one more callback. -/
def add (q : Queue O) : Callback O → Queue O
  | .listener l => { q with listeners := q.listeners ++ [l] }
  | .link j => { q with links := q.links ++ [j] }

/-- The callbacks that wait, in the order in which they are run. -/
def callbacks (q : Queue O) : List (Callback O) := q.listeners.map .listener ++ q.links.map .link

/-- The completion with which a callback that is registered now has to run at once. -/
def late? (q : Queue O) : Option (Completion O) := if q.drained then q.result else none

end Queue

/-- How far the callbacks of a promise are. -/
def promiseQueue (p : ScenarioPromise O) : Queue O := ⟨p.result, p.listeners, p.links, p.drained⟩

variable [Outcome O]

/-- The callback that a command registers, and its promise. -/
def Command.registration? (w : World O) : Command O → Option (Nat × Callback O)
  | .listen id tag script =>
    (w.findPromise id).toOption.bind fun i =>
      w.promises[i]?.map fun _ => (i, .listener ⟨tag, script⟩)
  | .link id target =>
    (w.findPromise id).toOption.bind fun i =>
      w.promises[i]?.bind fun _ => (w.findPromise target).toOption.map fun j => (i, .link j)
  | _ => none

/-- The callback that an entry of the agenda registers, and its promise. -/
def Work.registration? (w : World O) : Work O → Option (Nat × Callback O)
  | .command c => c.registration? w
  | _ => none

/-- Whether a command makes a promise. -/
def Command.makesPromise : Command O → Bool
  | .promise _ => true
  | .promiseWithPermits .. => true
  | .railPromise .. => true
  | _ => false

/-- How far the callbacks of the promise at a place are. -/
def World.queue? (w : World O) (i : Nat) : Option (Queue O) := w.promises[i]?.map promiseQueue

namespace Machine

/-- The entries of the agenda that run callbacks of the promise at a place. -/
def underway (m : Machine O) (i : Nat) : List (Work O) := m.agenda.filter (·.runs? = some i)

/-- The machine without the first entry of its agenda. -/
def rest (m : Machine O) : Machine O := { m with agenda := m.agenda.tail }

/-- The callback that the next step registers, and its promise. -/
def registration? (m : Machine O) : Option (Nat × Callback O) :=
  m.agenda.head?.bind (·.registration? m.world)

/-- The callback that the next step runs, with its promise and the completion. -/
def call? (m : Machine O) : Option (Nat × Callback O × Completion O) :=
  m.agenda.head?.bind (·.call?)

end Machine

/-! ## Steps that leave the callbacks alone -/

namespace World

variable {w : World O}

theorem queue?_congr {v : World O} (h : v.promises = w.promises) (i : Nat) :
    v.queue? i = w.queue? i := by
  rw [queue?, queue?, h]

theorem queue?_storePromise {i : Nat} {p : ScenarioPromise O} (hp : w.promises[i]? = some p)
    (p' : ScenarioPromise O) (j : Nat) :
    (w.storePromise i p').queue? j = if j = i then some (promiseQueue p') else w.queue? j := by
  have hi : i < w.promises.size := (Array.getElem?_eq_some_iff.mp hp).1
  rw [queue?, storePromise]
  split
  · rename_i hj
    subst hj
    rw [Array.getElem?_setIfInBounds_self_of_lt hi]
    rfl
  · rename_i hj
    rw [Array.getElem?_setIfInBounds_ne (Ne.symm hj)]
    rfl

theorem queue?_modifyPromise {i : Nat} {p : ScenarioPromise O} (hp : w.promises[i]? = some p)
    (f : ScenarioPromise O → ScenarioPromise O) (j : Nat) :
    (w.modifyPromise i f).queue? j = if j = i then some (promiseQueue (f p)) else w.queue? j := by
  rw [queue?, modifyPromise, Array.getElem?_modify]
  by_cases hj : j = i
  · subst hj
    rw [if_pos rfl, if_pos rfl, hp]
    rfl
  · rw [if_neg (Ne.symm hj), if_neg hj]
    rfl

/-- What changes neither the completion nor the callbacks. -/
theorem queue?_modifyPromise_of_eq {f : ScenarioPromise O → ScenarioPromise O}
    (hf : ∀ p, promiseQueue (f p) = promiseQueue p) (i j : Nat) :
    (w.modifyPromise i f).queue? j = w.queue? j := by
  rw [queue?, queue?, modifyPromise, Array.getElem?_modify]
  split
  · rw [Option.map_map]
    congr 1
    exact funext hf
  · rfl

theorem isPending_iff_queue? {i : Nat} :
    w.IsPending (.promise i) ↔ ∃ q, w.queue? i = some q ∧ q.result = none := by
  rw [isPending_promise_iff]
  constructor
  · rintro ⟨p, hp, hn⟩
    exact ⟨promiseQueue p, Option.map_eq_some_iff.mpr ⟨p, hp, rfl⟩, hn⟩
  · rintro ⟨q, hq, hn⟩
    obtain ⟨p, hp, rfl⟩ := Option.map_eq_some_iff.mp hq
    exact ⟨p, hp, hn⟩

theorem isSettled_iff_queue? {i : Nat} :
    w.IsSettled (.promise i) ↔ ∃ q c, w.queue? i = some q ∧ q.result = some c := by
  constructor
  · rintro ⟨s, hs, hne⟩
    obtain ⟨p, hp, rfl⟩ := Option.map_eq_some_iff.mp hs
    cases hc : p.result with
    | none =>
      refine absurd ?_ hne
      rw [promiseStanding, Promise.status, hc]
    | some c => exact ⟨promiseQueue p, c, Option.map_eq_some_iff.mpr ⟨p, hp, rfl⟩, hc⟩
  · rintro ⟨q, c, hq, hc⟩
    obtain ⟨p, hp, rfl⟩ := Option.map_eq_some_iff.mp hq
    have hpc : p.result = some c := hc
    refine ⟨promiseStanding p, Option.map_eq_some_iff.mpr ⟨p, hp, rfl⟩, ?_⟩
    have hstanding : promiseStanding p = (Holder.promise i).settled p.permits c := by
      rw [promiseStanding, Promise.status, hpc]
      rfl
    rw [hstanding]
    exact status_settled_ne _ _ c

theorem result?_eq (w : World O) (i : Nat) :
    w.result? i = (w.standing? (.promise i)).bind (·.result) := by
  rw [result?, standing?, Option.bind_map]
  rfl

theorem result?_eq_some_iff {i : Nat} {c : Completion O} :
    w.result? i = some c ↔ ∃ q, w.queue? i = some q ∧ q.result = some c := by
  rw [result?, Option.bind_eq_some_iff]
  constructor
  · rintro ⟨p, hp, hc⟩
    exact ⟨promiseQueue p, Option.map_eq_some_iff.mpr ⟨p, hp, rfl⟩, hc⟩
  · rintro ⟨q, hq, hc⟩
    obtain ⟨p, hp, rfl⟩ := Option.map_eq_some_iff.mp hq
    exact ⟨p, hp, hc⟩

end World

/-- A step that gives no name to a promise, changes nothing about callbacks that wait, and puts none
on the agenda. -/
structure Plain (m n : Machine O) : Prop where
  queue : ∀ i, n.world.queue? i = m.world.queue? i
  names : ∀ id i, n.world.findPromise id = .ok i → m.world.findPromise id = .ok i
  agenda : ∃ new, n.agenda = new ++ m.agenda ∧ ∀ work ∈ new, work.runs? = none

namespace Plain

variable {m n : Machine O}

theorem refl (m : Machine O) : Plain m m := ⟨fun _ => rfl, fun _ _ h => h, [], rfl, by simp⟩

theorem answer (h : Plain m n) (r : Reply O) : Plain m (n.answer r) := ⟨h.queue, h.names, h.agenda⟩

theorem retire (h : Plain m n) : Plain m n.retire := by
  obtain ⟨services, log, hn⟩ := n.retire_eq
  rw [hn]
  exact ⟨h.queue, h.names, h.agenda⟩

theorem push (h : Plain m n) {works : List (Work O)} (hw : ∀ work ∈ works, work.runs? = none) :
    Plain m (n.push works) := by
  obtain ⟨hqueue, hnames, new, hnew, hfree⟩ := h
  refine ⟨hqueue, hnames, works ++ new, ?_, ?_⟩
  · rw [Machine.push, hnew, List.append_assoc]
  · intro work hwork
    rcases List.mem_append.mp hwork with hwork | hwork
    · exact hw work hwork
    · exact hfree work hwork

theorem withWorld (h : Plain m n) {w : World O}
    (hqueue : ∀ i, w.queue? i = n.world.queue? i)
    (hnames : ∀ id i, w.findPromise id = .ok i → n.world.findPromise id = .ok i) :
    Plain m { n with world := w } :=
  ⟨fun i => (hqueue i).trans (h.queue i), fun id i hi => h.names id i (hnames id i hi), h.agenda⟩

theorem withFound {α : Type} {found : Except Fault α} {f : α → Machine O}
    (hf : ∀ a, found = .ok a → Plain m (f a)) : Plain m (m.withFound found f) := by
  cases found with
  | ok a => exact hf a rfl
  | error e => exact (refl m).answer _

theorem withPromise {id : String} {f : Nat → ScenarioPromise O → Machine O}
    (hf : ∀ i p, m.world.findPromise id = .ok i → m.world.promises[i]? = some p → Plain m (f i p)) :
    Plain m (m.withPromise id f) := by
  refine withFound fun i hi => ?_
  split
  · rename_i p hp
    exact hf i p hi hp
  · exact (refl m).answer _

end Plain

/-- What leaves all promises alone leaves their callbacks alone. -/
theorem Calm.plain {m n : Machine O} (h : Calm m n) : Plain m n := by
  obtain ⟨hpromises, hnames, new, hnew, hfree⟩ := h
  exact ⟨World.queue?_congr hpromises, hnames, new, hnew,
    fun work hwork => Work.runs?_eq_none (hfree work hwork)⟩

/-- A step that makes a promise, and gives it a name. -/
structure Makes (m n : Machine O) : Prop where
  queue : ∀ i, n.world.queue? i =
    if i = m.world.promises.size then some .fresh else m.world.queue? i
  names : ∀ id i, n.world.findPromise id = .ok i →
    m.world.findPromise id = .ok i ∨ i = m.world.promises.size
  agenda : n.agenda = m.agenda

theorem makes_addPromise {m n : Machine O} (hn : Calm m n) (ha : n.agenda = m.agenda) (id : String)
    (permits : Option (Permits (Release O))) (r : Reply O) :
    Makes m ({ n with world := n.world.addPromise id permits }.answer r) := by
  refine ⟨fun i => ?_, fun other i hi => ?_, ha⟩
  · change (n.world.promises.push _)[i]?.map promiseQueue = _
    rw [hn.promises, Array.getElem?_push]
    split
    · rfl
    · rfl
  · rw [findPromise_eq_ok_iff] at hi
    change (n.world.bench.bind id _).lookup other = _ at hi
    by_cases he : other = id
    · subst he
      rw [Bench.lookup_bind_self] at hi
      cases hi
      exact Or.inr (congrArg Array.size hn.promises)
    · rw [Bench.lookup_bind_of_ne _ _ he] at hi
      exact Or.inl (hn.names other i (findPromise_eq_ok_iff.mpr hi))

/-- A command that makes a promise, if it does not fail. -/
theorem start_of_makesPromise {m : Machine O} {c : Command O} (hc : c.makesPromise = true) :
    Plain m (m.start c) ∨ Makes m (m.start c) := by
  cases c with
  | promise id => exact Or.inr (makes_addPromise (Calm.refl m) rfl id none _)
  | promiseWithPermits id clock units start script =>
    rw [Machine.start]
    unfold Machine.withFound
    split
    · exact Or.inr (makes_addPromise (Calm.refl m) rfl id _ _)
    · exact Or.inl ((Plain.refl m).answer _)
  | railPromise rail units now as held =>
    rw [Machine.start]
    rcases withPermits_cases m rail units now held _ with hcalm | ⟨n, permits, hn, ha, heq⟩
    · exact Or.inl hcalm.plain
    · rw [heq]
      exact Or.inr (makes_addPromise hn ha as _ _)
  | _ => cases hc

/-- A command that neither makes nor completes a promise and registers no callback. -/
theorem plain_start {m : Machine O} {c : Command O} (hc : c.panics m.world = false)
    (hmakes : c.makesPromise = false) (hlost : ∀ i, ¬ Wins m.world (c.target? m.world) (.promise i))
    (hreg : c.registration? m.world = none) : Plain m (m.start c) := by
  have hrefl := Plain.refl m
  cases hvisits : c.visitsPromise with
  | false => exact (calm_start hc hvisits hlost).plain
  | true =>
  cases c with
  | listen id tag script =>
    refine Plain.withPromise fun i p hi hp => ?_
    rw [Command.registration?, hi] at hreg
    simp [Except.toOption, hp] at hreg
  | link id target =>
    refine Plain.withPromise fun i p hi hp => Plain.withFound fun j hj => ?_
    rw [Command.registration?, hi, hj] at hreg
    simp [Except.toOption, hp] at hreg
  | poll id waker script =>
    refine Plain.withFound fun i _ => ?_
    split
    · exact hrefl.answer _
    · refine (hrefl.withWorld (World.queue?_modifyPromise_of_eq (fun p => ?_) i) ?_).answer _
      · -- A poll changes the wakers only.
        unfold Promise.poll
        split <;> rfl
      · exact fun _ _ h => h
  | promise id => cases hmakes
  | promiseWithPermits id clock units start script => cases hmakes
  | railPromise rail units now as held => cases hmakes
  | _ => cases hvisits

/-- Every entry but commands and rounds leaves the callbacks alone, unless it completes a
promise. -/
theorem plain_perform {m : Machine O} {work : Work O} (hcommand : ∀ c, work ≠ .command c)
    (hdrain : ∀ i, work ≠ .drain i)
    (hlost : ∀ i, ¬ Wins m.world (work.target? m.world) (.promise i)) :
    Plain m (m.perform work) := by
  have hrefl := Plain.refl m
  by_cases hwakeAll : ∃ i, work = .wakeAll i
  · obtain ⟨i, rfl⟩ := hwakeAll
    rw [Machine.perform]
    split
    · rename_i p hp
      refine Plain.push (n := { m with world := _ }) (hrefl.withWorld (fun k => ?_) ?_) ?_
      · -- Only the wakers are taken.
        rw [World.queue?_storePromise hp]
        split
        · rename_i hk
          rw [hk, World.queue?, hp]
          rfl
        · rfl
      · exact fun _ _ h => h
      · intro work hwork
        obtain ⟨waker, -, rfl⟩ := List.mem_map.mp hwork
        rfl
    · exact hrefl
  · exact (calm_perform hcommand (fun i hi => hwakeAll ⟨i, hi⟩) hdrain hlost).plain

end Admission.Scenario
