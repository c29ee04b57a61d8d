import Admission.Proofs.Scenario.Names
import Admission.Proofs.Scenario.Runs

/-!
# Steps that leave all promises alone

Most steps have nothing to do with promises. They neither make nor complete one, register nothing
with one, and run no callback that would start others: so all promises stay as they are, no name is
given to one, and what such a step puts on the agenda belongs to none.

## Main definitions

* `Command.visitsPromise`: whether a command makes a promise or registers something with one
* `Calm`: a step that leaves all promises alone

## Main results

* `calm_start`, `calm_perform`: what leaves all promises alone
* `withPermits_cases`: permits that are asked for, until something is made that holds them
-/

namespace Admission.Scenario

variable {O : Type}

/-- Whether a command makes a promise, or registers a listener, a link or a waker with one. -/
def Command.visitsPromise : Command O → Bool
  | .promise _ => true
  | .promiseWithPermits .. => true
  | .railPromise .. => true
  | .listen .. => true
  | .link .. => true
  | .poll .. => true
  | _ => false

variable [Outcome O]

theorem findPromise_eq_ok_iff {w : World O} {id : String} {i : Nat} :
    w.findPromise id = .ok i ↔ w.bench.lookup id = some (.promise i) := by
  unfold World.findPromise Bench.find
  generalize w.bench.lookup id = found
  cases found with
  | none => simp
  | some h => cases h <;> simp

/-- A step that changes no promise, gives no name to one, and puts nothing on the agenda that
belongs to one. -/
structure Calm (m n : Machine O) : Prop where
  promises : n.world.promises = m.world.promises
  names : ∀ id i, n.world.findPromise id = .ok i → m.world.findPromise id = .ok i
  agenda : ∃ new, n.agenda = new ++ m.agenda ∧ ∀ work ∈ new, ∀ i, work.owner? ≠ some (.promise i)

namespace Calm

variable {m n : Machine O}

theorem refl (m : Machine O) : Calm m m := ⟨rfl, fun _ _ h => h, [], rfl, by simp⟩

theorem trans {k : Machine O} (h : Calm m n) (hk : Calm n k) : Calm m k := by
  obtain ⟨new, hnew, hfree⟩ := h.agenda
  obtain ⟨more, hmore, hfree'⟩ := hk.agenda
  refine ⟨hk.promises.trans h.promises, fun id i hi => h.names id i (hk.names id i hi),
    more ++ new, ?_, ?_⟩
  · rw [hmore, hnew, List.append_assoc]
  · intro work hwork
    rcases List.mem_append.mp hwork with hwork | hwork
    · exact hfree' work hwork
    · exact hfree work hwork

theorem answer (h : Calm m n) (r : Reply O) : Calm m (n.answer r) := ⟨h.promises, h.names, h.agenda⟩

theorem tell (h : Calm m n) (notes : List (Note O Rejection)) : Calm m (n.tell notes) :=
  ⟨h.promises, h.names, h.agenda⟩

theorem collect (h : Calm m n) {b : Bench O}
    (hb : ∀ id i, b.lookup id = some (.promise i) → n.world.bench.lookup id = some (.promise i)) :
    Calm m (n.collect b) := by
  refine ⟨h.promises, fun id i hi => h.names id i ?_, h.agenda⟩
  exact findPromise_eq_ok_iff.mpr (hb id i (findPromise_eq_ok_iff.mp hi))

theorem retire (h : Calm m n) : Calm m n.retire := by
  obtain ⟨services, log, hn⟩ := n.retire_eq
  rw [hn]
  exact ⟨h.promises, h.names, h.agenda⟩

theorem push (h : Calm m n) {works : List (Work O)}
    (hw : ∀ work ∈ works, ∀ i, work.owner? ≠ some (.promise i)) : Calm m (n.push works) := by
  obtain ⟨hpromises, hnames, new, hnew, hfree⟩ := h
  refine ⟨hpromises, hnames, works ++ new, ?_, ?_⟩
  · rw [Machine.push, hnew, List.append_assoc]
  · intro work hwork
    rcases List.mem_append.mp hwork with hwork | hwork
    · exact hw work hwork
    · exact hfree work hwork

/-- What is neither a promise nor a name can be changed at will. -/
theorem withWorld (h : Calm m n) {w : World O} (hp : w.promises = n.world.promises)
    (hb : w.bench = n.world.bench) : Calm m { n with world := w } := by
  refine ⟨hp.trans h.promises, fun id i hi => h.names id i ?_, h.agenda⟩
  rw [findPromise_eq_ok_iff] at hi ⊢
  rwa [← hb]

/-- A name can be given to what is no promise. -/
theorem withWorld_bind (h : Calm m n) {w : World O} (hp : w.promises = n.world.promises)
    (hb : w.bench = n.world.bench) (id : String) {handle : Handle} (hh : handle.promise? = none) :
    Calm m { n with world := w.bind id handle } := by
  refine ⟨hp.trans h.promises, fun other i hi => h.names other i ?_, h.agenda⟩
  rw [findPromise_eq_ok_iff] at hi ⊢
  rw [← hb]
  have hrun : (Scenario.bind id handle).run w.bench =
      .ok (PUnit.unit, w.bench.bind id handle) := rfl
  exact KeepsNames.name id hh w.bench PUnit.unit _ hrun other i hi

theorem withFound {α : Type} {found : Except Fault α} {f : α → Machine O}
    (hf : ∀ a, found = .ok a → Calm m (f a)) : Calm m (m.withFound found f) := by
  cases found with
  | ok a => exact hf a rfl
  | error e => exact (refl m).answer _

theorem withPromise {id : String} {f : Nat → ScenarioPromise O → Machine O}
    (hf : ∀ i p, Calm m (f i p)) : Calm m (m.withPromise id f) := by
  refine withFound fun i _ => ?_
  split
  · exact hf i _
  · exact (refl m).answer _

theorem withDeadlines {id : String} {f : Nat → TimeoutQueue (Task O) → Machine O}
    (hf : ∀ i q, Calm m (f i q)) : Calm m (m.withDeadlines id f) := by
  refine withFound fun i _ => ?_
  split
  · exact hf i _
  · exact (refl m).answer _

theorem withService {id : String} {f : Nat → PlacedService O → Machine O}
    (hf : ∀ i s, Calm m (f i s)) : Calm m (m.withService id f) := by
  refine withFound fun i _ => ?_
  split
  · exact hf i _
  · exact (refl m).answer _

end Calm

/-! ## Commands -/

/-- Permits that are asked for change the bench and give no names. -/
theorem withPermits_cases (m : Machine O) (rail : String) (units now : UInt64) (held : Bool)
    (f : Permits (Release O) → World O → World O) :
    Calm m (m.withPermits rail units now held f) ∨
      ∃ n permits, Calm m n ∧ n.agenda = m.agenda ∧
        m.withPermits rail units now held f =
          { n with world := f permits n.world }.answer (.ok .nothing) := by
  unfold Machine.withPermits Machine.withFound
  cases m.world.findRail rail with
  | error e => exact Or.inl ((Calm.refl m).answer _)
  | ok i =>
    cases held with
    | true => exact Or.inr ⟨m, _, Calm.refl m, rfl, rfl⟩
    | false =>
      have hcollect : Calm m (m.collect (m.world.bench.acquireFrom i units now).2) := by
        refine (Calm.refl m).collect fun id j hj => ?_
        unfold Bench.lookup at hj ⊢
        rwa [Bench.names_acquireFrom] at hj
      simp only [Bool.false_eq_true, if_false]
      split
      · exact Or.inl (hcollect.answer _)
      · exact Or.inr ⟨_, _, hcollect, rfl, rfl⟩

/-- An attempt that loses changes nothing, and one on a completable nothing about promises. -/
theorem calm_settle {m : Machine O} {h : Holder} {c : Completion O}
    (hlost : ∀ i, h = .promise i → ¬ m.world.IsPending h) : Calm m (m.settle h c).2 := by
  by_cases hp : m.world.IsPending h
  · cases h with
    | promise i => exact absurd hp (hlost i rfl)
    | completable i =>
      rw [Machine.settle, Machine.settleCompletable]
      split
      · rename_i w permits hw
        obtain ⟨k, -, -, -, rfl⟩ := World.settleCompletable_eq_some hw
        refine Calm.push (n := { m with world := _ }) ((Calm.refl m).withWorld (by rfl) (by rfl)) ?_
        intro work hwork
        rw [Option.mem_toList, Option.map_eq_some_iff] at hwork
        obtain ⟨p, -, rfl⟩ := hwork
        simp [Work.owner?]
      · exact Calm.refl m
  · rw [Machine.settle_of_not_isPending hp]
    exact Calm.refl m

/-- The same for an attempt by a command, which ends with a reply. -/
theorem calm_attempt {m : Machine O} {cmd : Command O} {h : Holder} {c : Completion O}
    (ht : cmd.target? m.world = some (h, c)) (hlost : ∀ i, h = .promise i → ¬ m.world.IsPending h) :
    Calm m (m.start cmd) := by
  have hpush : Calm m (m.push [.reply (.ok (.truth true))]) :=
    (Calm.refl m).push (by simp [Work.owner?])
  have hsettle : Calm (m.push [.reply (.ok (.truth true))]) _ := calm_settle (h := h) (c := c) hlost
  rw [start_attempt ht]
  dsimp only
  split
  · exact hpush.trans hsettle
  · exact (Calm.refl m).answer _

/-- A command that neither makes nor completes a promise and registers nothing with one. -/
theorem calm_start {m : Machine O} {c : Command O} (hc : c.panics m.world = false)
    (hvisits : c.visitsPromise = false)
    (hlost : ∀ i, ¬ Wins m.world (c.target? m.world) (.promise i)) : Calm m (m.start c) := by
  have hrefl := Calm.refl m
  cases ht : c.target? m.world with
  | some target =>
    obtain ⟨h, d⟩ := target
    refine calm_attempt ht fun i hi hp => hlost i ⟨hi ▸ hp, d, ?_⟩
    rw [ht, hi]
  | none =>
  cases c with
  | bench c =>
    rw [Machine.start]
    split
    · rename_i a b hrun
      exact (hrefl.collect (c.keepsNames _ a b hrun)).answer _
    · rename_i hrun
      rw [Command.panics, hrun] at hc
      cases hc
    · exact hrefl.answer _
  | panic message => cases hc
  | promise id => cases hvisits
  | promiseWithPermits id clock units start script => cases hvisits
  | railPromise rail units now as held => cases hvisits
  | listen id tag script => cases hvisits
  | link id target => cases hvisits
  | poll id waker script => cases hvisits
  | settle id c =>
    refine Calm.withFound fun i hi => ?_
    rw [Command.target?, hi] at ht
    cases ht
  | ask id q => exact Calm.withPromise fun i p => hrefl.answer _
  | future id as =>
    refine Calm.withFound fun i _ => ?_
    exact (hrefl.withWorld_bind (by rfl) (by rfl) as (by rfl)).answer _
  | waitWhile id body =>
    refine Calm.withFound fun i _ => hrefl.push ?_
    simp [Work.owner?]
  | completable id => exact (hrefl.withWorld_bind (by rfl) (by rfl) id (by rfl)).answer _
  | completableWithPermits id clock units start script =>
    refine Calm.withFound fun c _ => ?_
    exact (hrefl.withWorld_bind (by rfl) (by rfl) id (by rfl)).answer _
  | complete id c =>
    refine Calm.withFound fun i hi => ?_
    rw [Command.target?, hi] at ht
    cases ht
  | completableStatus id =>
    refine Calm.withFound fun i _ => ?_
    split
    · exact hrefl.answer _
    · exact hrefl.answer _
  | railCompletable rail units now as held =>
    rw [Machine.start]
    rcases withPermits_cases m rail units now held _ with hcalm | ⟨n, permits, hn, ha, heq⟩
    · exact hcalm
    · rw [heq]
      exact (hn.withWorld_bind (by rfl) (by rfl) as (by rfl)).answer _
  | deadlines id => exact (hrefl.withWorld_bind (by rfl) (by rfl) id (by rfl)).answer _
  | push id plan deadline =>
    refine Calm.withDeadlines fun i q => Calm.withFound fun task _ => ?_
    exact (hrefl.withWorld (by rfl) (by rfl)).answer _
  | nextDeadline id => exact Calm.withDeadlines fun i q => hrefl.answer _
  | deadlinesSize id => exact Calm.withDeadlines fun i q => hrefl.answer _
  | clearDeadlines id =>
    refine Calm.withDeadlines fun i q => ?_
    exact (hrefl.withWorld (by rfl) (by rfl)).answer _
  | expire id now =>
    refine Calm.withDeadlines fun i q => (hrefl.withWorld (by rfl) (by rfl)).push ?_
    intro work hwork
    rcases List.mem_append.mp hwork with hwork | hwork
    · obtain ⟨task, -, rfl⟩ := List.mem_map.mp hwork
      simp [Work.owner?]
    · rw [List.mem_singleton.mp hwork]
      simp [Work.owner?]
  | deadlinesDebug id => exact Calm.withDeadlines fun i q => hrefl.answer _
  | service id config start =>
    rw [Command.panics] at hc
    rw [Machine.start]
    split
    · rename_i s hs
      rw [hs] at hc
      split
      · rename_i message hfault
        rw [hfault] at hc
        cases hc
      · refine ((hrefl.withWorld_bind (by rfl) (by rfl) id (by rfl)).tell _).push ?_
        simp [Work.owner?]
    · exact hrefl.answer _
  | schedule id plan timeout now =>
    refine Calm.withService fun i s => Calm.withFound fun task _ => ?_
    split
    · refine (hrefl.withWorld (by rfl) (by rfl)).push ?_
      simp [Work.owner?]
    · exact hrefl.answer _
  | setServiceClock id now =>
    refine Calm.withService fun i s => ?_
    have hclock := hrefl.withWorld (w := m.world.setServiceClock i ⟨now⟩) rfl rfl
    dsimp only
    split
    · refine (hclock.withWorld (by rfl) (by rfl)).push ?_
      simp [Work.owner?]
    · exact hclock.answer _
  | serviceParts id => exact Calm.withService fun i s => hrefl.answer _
  | serviceDebug id => exact Calm.withService fun i s => hrefl.answer _
  | stopService id =>
    refine Calm.withService fun i s => (hrefl.withWorld (by rfl) (by rfl)).push ?_
    simp [Work.owner?]
  | killService id plan timeout =>
    refine Calm.withService fun i s => Calm.withFound fun task _ => ?_
    split
    · exact (hrefl.withWorld (by rfl) (by rfl)).answer _
    · exact hrefl.answer _

/-! ## All entries of the agenda -/

theorem calm_serve (m : Machine O) (i : Nat) : Calm m (m.serve i) := by
  have hrefl := Calm.refl m
  have hgo (t : TimeoutService (Task O)) :
      Calm m ({ m with world := m.world.storeService i t }.push [.serve i]) :=
    (hrefl.withWorld (by rfl) (by rfl)).push (by simp [Work.owner?])
  unfold Machine.serve
  split
  · exact hrefl
  · split
    · exact hrefl
    · dsimp only
      split
      · exact hrefl
      · exact hgo _
      · split
        · exact (hrefl.withWorld (by rfl) (by rfl)).push (by simp [Work.owner?])
        · split
          · exact hgo _
          · split
            · exact hgo _
            · exact hrefl

/-- Every entry leaves all promises alone, unless it is a command, completes a promise, takes its
wakers or starts a round of its callbacks. -/
theorem calm_perform {m : Machine O} {work : Work O} (hcommand : ∀ c, work ≠ .command c)
    (hwakeAll : ∀ i, work ≠ .wakeAll i) (hdrain : ∀ i, work ≠ .drain i)
    (hlost : ∀ i, ¬ Wins m.world (work.target? m.world) (.promise i)) :
    Calm m (m.perform work) := by
  have hrefl := Calm.refl m
  have hsettle {n : Machine O} (hn : Calm m n) (hw : n.world = m.world) (h : Holder)
      (c : Completion O) (ht : work.target? m.world = some (h, c)) :
      Calm m (n.settle h c).2 := by
    refine hn.trans (calm_settle fun i hi hp => hlost i ⟨?_, c, ?_⟩)
    · rw [← hw, ← hi]
      exact hp
    · rw [ht, hi]
  cases work with
  | command c => exact absurd rfl (hcommand c)
  | report name => exact hrefl.withWorld (by rfl) (by rfl)
  | script s =>
    cases s with
    | done => exact hrefl
    | act name c more => exact hrefl.push (by simp [Work.owner?])
  | release h permits outcome =>
    change Calm m (m.returnPermits permits outcome)
    unfold Machine.returnPermits
    dsimp only
    split
    · refine hrefl.collect fun id j hj => ?_
      unfold Bench.lookup at hj ⊢
      rwa [Bench.names_releaseTo] at hj
    · exact (hrefl.withWorld (by rfl) (by rfl)).push (by simp [Work.owner?])
  | wakeAll i => exact absurd rfl (hwakeAll i)
  | wake i k => exact (hrefl.withWorld (by rfl) (by rfl)).push (by simp [Work.owner?])
  | drain i => exact absurd rfl (hdrain i)
  | listener i l c => exact (hrefl.withWorld (by rfl) (by rfl)).push (by simp [Work.owner?])
  | forward i j c => exact hsettle hrefl rfl (.promise j) c rfl
  | fire task =>
    cases task with
    | promise i => exact hsettle hrefl rfl (.promise i) .timeout rfl
    | completable i => exact hsettle hrefl rfl (.completable i) .timeout rfl
    | tagged tag script =>
      exact (hrefl.withWorld (by rfl) (by rfl)).push (by simp [Work.owner?])
    | probe => exact hrefl
  | fired i =>
    rw [Machine.perform]
    split
    · exact hrefl.withWorld (by rfl) (by rfl)
    · exact hrefl
  | serve i => exact calm_serve m i
  | reply r => exact hrefl.answer r
  | replyPending i => exact (hrefl.answer _).retire
  | stopped i wasAccepting =>
    rw [Machine.perform]
    split
    · exact (hrefl.tell _).answer _
    · exact hrefl.answer _
  | await i =>
    exact hsettle (hrefl.push (by simp [Work.owner?])) rfl (.promise i) .cancelled rfl
  | waited i reply =>
    rw [Machine.perform]
    split
    · exact hrefl.answer _
    · exact hrefl

end Admission.Scenario
