import Admission.Proofs.Scenario.Holders
import Admission.Proofs.Scenario.Steps

/-!
# What a step can do to the holders of permits

A step of the machine completes one holder at most, namely one that it attempts to complete and that
is pending. All other holders stand as they stood. It takes the first entry off the agenda and puts
others in its place; of these, those that return permits belong to the holder that was completed,
and the other callbacks belong to it too, or to the holder whose callbacks are being run, or to one
that was settled before. A panic is the only exception, for it drops entries.

## Main definitions

* `Work.target?`: the holder and the completion of an attempt
* `Work.owner?`: the holder whose callbacks an entry of the agenda is about
* `Work.panics`: whether an entry of the agenda ends in a panic
* `Effect`: what a step can do

## Main results

* `effect_start`, `effect_perform`: the effect of a command and of any entry
-/

namespace Admission.Scenario

variable {O : Type} [Outcome O]

/-! ## Attempts, callbacks and panics -/

/-- The holder that a command attempts to complete, and with what. -/
def Command.target? (w : World O) : Command O → Option (Holder × Completion O)
  | .settle id c => (w.findPromise id).toOption.map fun i => (.promise i, c)
  | .complete id c => (w.findCompletable id).toOption.map fun i => (.completable i, c)
  | _ => none

/-- The holder that an entry of the agenda attempts to complete, and with what. -/
def Work.target? (w : World O) : Work O → Option (Holder × Completion O)
  | .command c => c.target? w
  | .forward _ j c => some (.promise j, c)
  | .fire (.promise i) => some (.promise i, .timeout)
  | .fire (.completable i) => some (.completable i, .timeout)
  | .await i => some (.promise i, .cancelled)
  | _ => none

/-- The holder for whose completion an entry of the agenda is there. -/
def Work.owner? : Work O → Option Holder
  | .release h _ _ => some h
  | .wakeAll i => some (.promise i)
  | .wake i _ => some (.promise i)
  | .drain i => some (.promise i)
  | .listener i _ _ => some (.promise i)
  | .forward i _ _ => some (.promise i)
  | _ => none

/-- Whether an entry of the agenda returns permits. -/
def Work.isRelease : Work O → Bool
  | .release .. => true
  | _ => false

/-- Whether a command ends in a panic. -/
def Command.panics (w : World O) : Command O → Bool
  | .bench c => match c.run.run w.bench with
    | .error (.panicked _) => true
    | _ => false
  | .panic _ => true
  | .service _ config _ => match TimeoutService.make (τ := Task O) config with
    | .ok _ => config.threadFault?.isSome
    | .error _ => false
  | _ => false

/-- All other commands end without a panic, by `effect_start`. -/
theorem start_of_panics {m : Machine O} {c : Command O} (hc : c.panics m.world = true) :
    ∃ message, m.start c = m.unwind message := by
  cases c with
  | bench c =>
    rw [Command.panics] at hc
    rw [Machine.start]
    split at hc
    · rename_i message hrun
      rw [hrun]
      exact ⟨message, rfl⟩
    · cases hc
  | panic message => exact ⟨message, rfl⟩
  | service id config start =>
    rw [Command.panics] at hc
    cases hs : TimeoutService.make (τ := Task O) config with
    | error e =>
      rw [hs] at hc
      cases hc
    | ok s =>
      rw [hs] at hc
      obtain ⟨message, hfault⟩ := Option.isSome_iff_exists.mp hc
      refine ⟨message, ?_⟩
      rw [Machine.start, hs]
      dsimp only
      rw [hfault]
  | _ => cases hc

/-- Whether an entry of the agenda ends in a panic. -/
def Work.panics (w : World O) : Work O → Bool
  | .command c => c.panics w
  | _ => false

/-- An attempt wins if its holder is pending. -/
def Wins (w : World O) (target? : Option (Holder × Completion O)) (h : Holder) : Prop :=
  w.IsPending h ∧ ∃ c, target? = some (h, c)

/-! ## Effects -/

/-- Where a new entry of the agenda can come from: if it belongs to a holder, the holder was just
completed, or the entry is a callback, and the holder is the one whose callbacks are being run or
was settled before. -/
def Work.Springs (w : World O) (won : Holder → Prop) (parent : Option Holder)
    (work : Work O) : Prop :=
  ∀ h, work.owner? = some h →
    won h ∨ (work.isRelease = false ∧ (parent = some h ∨ w.IsSettled h))

/-- What a step can do that completes certain holders and runs callbacks of a certain holder. -/
structure Effect (m : Machine O) (won : Holder → Prop) (parent : Option Holder) (n : Machine O) :
    Prop where
  standing : ∀ h s, m.world.standing? h = some s → ¬ won h → n.world.standing? h = some s
  agenda : ∃ new, n.agenda = new ++ m.agenda ∧ ∀ work ∈ new, work.Springs m.world won parent

theorem Work.springs_of_owner?_eq_none {w : World O} {won : Holder → Prop} {parent : Option Holder}
    {work : Work O} (h : work.owner? = none) : work.Springs w won parent := by
  intro k hk
  rw [h] at hk
  cases hk

namespace Effect

variable {m n : Machine O} {won : Holder → Prop} {parent : Option Holder}

theorem refl (m : Machine O) (won : Holder → Prop) (parent : Option Holder) :
    Effect m won parent m :=
  ⟨fun _ _ hs _ => hs, [], rfl, by simp⟩

theorem answer (h : Effect m won parent n) (r : Reply O) : Effect m won parent (n.answer r) :=
  ⟨h.standing, h.agenda⟩

theorem tell (h : Effect m won parent n) (notes : List (Note O Rejection)) :
    Effect m won parent (n.tell notes) :=
  ⟨h.standing, h.agenda⟩

theorem collect (h : Effect m won parent n) (b : Bench O) : Effect m won parent (n.collect b) :=
  ⟨h.standing, h.agenda⟩

theorem retire (h : Effect m won parent n) : Effect m won parent n.retire := by
  obtain ⟨services, log, hn⟩ := n.retire_eq
  rw [hn]
  exact ⟨h.standing, h.agenda⟩

theorem push (h : Effect m won parent n) {works : List (Work O)}
    (hw : ∀ work ∈ works, work.Springs m.world won parent) :
    Effect m won parent (n.push works) := by
  obtain ⟨hstanding, new, hnew, hsprings⟩ := h
  refine ⟨hstanding, works ++ new, ?_, ?_⟩
  · rw [Machine.push, hnew, List.append_assoc]
  · intro work hwork
    rcases List.mem_append.mp hwork with hwork | hwork
    · exact hw work hwork
    · exact hsprings work hwork

/-- Entries that belong to no holder come from anywhere. -/
theorem push_free (h : Effect m won parent n) {works : List (Work O)}
    (hw : ∀ work ∈ works, work.owner? = none) : Effect m won parent (n.push works) :=
  h.push fun work hwork => Work.springs_of_owner?_eq_none (hw work hwork)

theorem withWorld (h : Effect m won parent n) {w : World O}
    (hw : ∀ k s, n.world.standing? k = some s → w.standing? k = some s) :
    Effect m won parent { n with world := w } :=
  ⟨fun k s hs hk => hw k s (h.standing k s hs hk), h.agenda⟩

theorem withFound {α : Type} {found : Except Fault α} {f : α → Machine O}
    (hf : ∀ a, found = .ok a → Effect m won parent (f a)) :
    Effect m won parent (m.withFound found f) := by
  cases found with
  | ok a => exact hf a rfl
  | error e => exact (refl m won parent).answer _

theorem withPromise {id : String} {f : Nat → ScenarioPromise O → Machine O}
    (hf : ∀ i p, m.world.findPromise id = .ok i → m.world.promises[i]? = some p →
      Effect m won parent (f i p)) :
    Effect m won parent (m.withPromise id f) := by
  refine withFound fun i hi => ?_
  split
  · rename_i p hp
    exact hf i p hi hp
  · exact (refl m won parent).answer _

theorem withDeadlines {id : String} {f : Nat → TimeoutQueue (Task O) → Machine O}
    (hf : ∀ i q, Effect m won parent (f i q)) : Effect m won parent (m.withDeadlines id f) := by
  refine withFound fun i hi => ?_
  split
  · exact hf i _
  · exact (refl m won parent).answer _

theorem withService {id : String} {f : Nat → PlacedService O → Machine O}
    (hf : ∀ i s, Effect m won parent (f i s)) : Effect m won parent (m.withService id f) := by
  refine withFound fun i hi => ?_
  split
  · exact hf i _
  · exact (refl m won parent).answer _

/-- Permits that are asked for change the bench, and what takes them over is new. -/
theorem withPermits {rail : String} {units now : UInt64} {held : Bool}
    {f : Permits (Release O) → World O → World O}
    (hf : ∀ permits w k s, World.standing? w k = some s → (f permits w).standing? k = some s) :
    Effect m won parent (m.withPermits rail units now held f) := by
  refine withFound fun i _ => ?_
  have hput (n : Machine O) (hn : Effect m won parent n) (permits : Permits (Release O)) :
      Effect m won parent ({ n with world := f permits n.world }.answer (.ok .nothing)) :=
    (hn.withWorld fun k s hs => hf permits n.world k s hs).answer _
  cases held with
  | true => exact hput m (refl m won parent) _
  | false =>
    simp only [Bool.false_eq_true, if_false]
    split
    · exact ((refl m won parent).collect _).answer _
    · exact hput _ ((refl m won parent).collect _) _

/-- An attempt completes its holder if that is pending, and does nothing otherwise. -/
theorem settle (m : Machine O) (h : Holder) (c : Completion O) (parent : Option Holder) :
    Effect m (Wins m.world (some (h, c))) parent (m.settle h c).2 := by
  by_cases hp : m.world.IsPending h
  · obtain ⟨permits, hpermits⟩ := id hp
    obtain ⟨w, hw, -, hstanding⟩ := Machine.settle_of_isPending hpermits c
    -- What follows the completion belongs to the holder that is completed, which won.
    have hwon : Wins m.world (some (h, c)) h := ⟨hp, c, rfl⟩
    rw [hw]
    refine ⟨?_, h.followUp permits c, rfl, ?_⟩
    · intro k s hs hk
      have hne : k ≠ h := by
        rintro rfl
        exact hk hwon
      change w.standing? k = some s
      rw [hstanding, if_neg hne, hs]
    · intro work hwork k hk
      have hk' : k = h := by
        rcases List.mem_append.mp hwork with hwork | hwork
        · rw [Option.mem_toList, Option.map_eq_some_iff] at hwork
          obtain ⟨p, -, rfl⟩ := hwork
          exact (Option.some.inj hk).symm
        · cases h with
          | completable i => cases hwork
          | promise i =>
            rcases List.mem_cons.mp hwork with rfl | hwork
            · exact (Option.some.inj hk).symm
            · obtain rfl := List.mem_singleton.mp hwork
              exact (Option.some.inj hk).symm
      exact Or.inl (hk' ▸ hwon)
  · rw [Machine.settle_of_not_isPending hp]
    exact refl m _ parent

end Effect

/-! ## Commands -/

theorem isSettled_of_late? {w : World O} {i : Nat} {p : ScenarioPromise O} {c : Completion O}
    (hp : w.promises[i]? = some p) (hc : p.late? = some c) : w.IsSettled (.promise i) := by
  refine ⟨promiseStanding p, Option.map_eq_some_iff.mpr ⟨p, hp, rfl⟩, ?_⟩
  have hresult : p.result = some c := by
    unfold Promise.late? at hc
    split at hc
    · exact hc
    · cases hc
  rw [promiseStanding, Promise.status, hresult]
  cases c with
  | success o v => exact Status.noConfusion
  | error o e => exact Status.noConfusion
  | timeout => exact Status.noConfusion
  | cancelled => exact Status.noConfusion

/-- The reply of an attempt comes after all that follows it, so it goes on the agenda first. -/
theorem effect_attempt (m : Machine O) (h : Holder) (c : Completion O) (parent : Option Holder) :
    Effect m (Wins m.world (some (h, c))) parent
      (let (won, n) := (m.push [.reply (.ok (.truth true))]).settle h c
      if won then n else m.answer (.ok (.truth false))) := by
  by_cases hp : m.world.IsPending h
  · obtain ⟨permits, hpermits⟩ := hp
    have hpush : (m.push [.reply (.ok (.truth true))]).world.standing? h =
        some (.pending permits) :=
      hpermits
    obtain ⟨w, hw, -⟩ := Machine.settle_of_isPending hpush c
    obtain ⟨hstanding, new, hnew, hsprings⟩ :=
      Effect.settle (m.push [.reply (.ok (.truth true))]) h c parent
    rw [hw] at hstanding hnew ⊢
    -- The reply was on the agenda before the attempt, and now stands behind what the attempt put
    -- there.
    refine ⟨hstanding, new ++ [.reply (.ok (.truth true))], ?_, ?_⟩
    · rw [List.append_assoc]
      exact hnew
    · intro work hwork
      rcases List.mem_append.mp hwork with hwork | hwork
      · exact hsprings work hwork
      · rw [List.mem_singleton.mp hwork]
        exact Work.springs_of_owner?_eq_none rfl
  · have hpush : ¬ (m.push [.reply (.ok (.truth true))]).world.IsPending h := hp
    rw [Machine.settle_of_not_isPending hpush]
    exact (Effect.refl m _ parent).answer _

open Effect in
/-- The effect of a command that does not panic. -/
theorem effect_start (m : Machine O) (c : Command O) (hc : c.panics m.world = false) :
    Effect m (Wins m.world (c.target? m.world)) none (m.start c) := by
  have hrefl := refl m (Wins m.world (c.target? m.world)) none
  cases c with
  | bench c =>
    rw [Command.panics] at hc
    rw [Machine.start]
    split
    · exact (hrefl.collect _).answer _
    · rename_i hrun
      rw [hrun] at hc
      cases hc
    · exact hrefl.answer _
  | panic message => cases hc
  | promise id =>
    exact (hrefl.withWorld fun k s hs => World.standing?_addPromise hs id none).answer _
  | promiseWithPermits id clock units start script =>
    refine withFound fun c _ => ?_
    exact (hrefl.withWorld fun k s hs => World.standing?_addPromise hs id _).answer _
  | settle id c =>
    refine withFound fun i hi => ?_
    rw [Command.target?, hi]
    exact effect_attempt m (.promise i) c none
  | ask id q => exact withPromise fun i p _ _ => hrefl.answer _
  | listen id tag script =>
    refine withPromise fun i p _ hp => ?_
    split
    · rename_i c hlate
      refine hrefl.push fun work hwork => ?_
      -- A listener that comes late runs at once, for a promise that was completed before.
      rcases List.mem_cons.mp hwork with rfl | hwork
      · rintro k hk
        cases hk
        exact Or.inr ⟨rfl, Or.inr (isSettled_of_late? hp hlate)⟩
      · rw [List.mem_singleton.mp hwork]
        exact Work.springs_of_owner?_eq_none rfl
    · refine (hrefl.withWorld ?_).answer _
      intro k s hs
      refine (World.standing?_modifyPromise (fun p => ?_) k).trans hs
      rfl
  | link id target =>
    refine withPromise fun i p _ hp => withFound fun j _ => ?_
    split
    · rename_i c hlate
      refine hrefl.push fun work hwork => ?_
      rcases List.mem_cons.mp hwork with rfl | hwork
      · rintro k hk
        cases hk
        exact Or.inr ⟨rfl, Or.inr (isSettled_of_late? hp hlate)⟩
      · rw [List.mem_singleton.mp hwork]
        exact Work.springs_of_owner?_eq_none rfl
    · refine (hrefl.withWorld ?_).answer _
      intro k s hs
      refine (World.standing?_modifyPromise (fun p => ?_) k).trans hs
      rfl
  | future id as =>
    refine withFound fun i _ => ?_
    refine (hrefl.withWorld ?_).answer _
    exact fun _ _ hs => hs
  | poll id waker script =>
    refine withFound fun i _ => ?_
    split
    · exact hrefl.answer _
    · refine (hrefl.withWorld ?_).answer _
      intro k s hs
      refine (World.standing?_modifyPromise (fun p => ?_) k).trans hs
      unfold Promise.poll
      split <;> rfl
  | waitWhile id body =>
    refine withFound fun i _ => hrefl.push_free ?_
    simp [Work.owner?]
  | completable id =>
    exact (hrefl.withWorld fun k s hs => World.standing?_addCompletable hs id none).answer _
  | completableWithPermits id clock units start script =>
    refine withFound fun c _ => ?_
    exact (hrefl.withWorld fun k s hs => World.standing?_addCompletable hs id _).answer _
  | complete id c =>
    refine withFound fun i hi => ?_
    rw [Command.target?, hi]
    exact effect_attempt m (.completable i) c none
  | completableStatus id =>
    refine withFound fun i _ => ?_
    split
    · exact hrefl.answer _
    · exact hrefl.answer _
  | railPromise rail units now as held =>
    rw [Machine.start]
    refine withPermits ?_
    exact fun _ (w : World O) k s hs => World.standing?_addPromise hs as _
  | railCompletable rail units now as held =>
    rw [Machine.start]
    refine withPermits ?_
    exact fun _ (w : World O) k s hs => World.standing?_addCompletable hs as _
  | deadlines id =>
    refine (hrefl.withWorld ?_).answer _
    exact fun _ _ hs => hs
  | push id plan deadline =>
    refine withDeadlines fun i q => withFound fun task _ => (hrefl.withWorld ?_).answer _
    exact fun _ _ hs => hs
  | nextDeadline id => exact withDeadlines fun i q => hrefl.answer _
  | deadlinesSize id => exact withDeadlines fun i q => hrefl.answer _
  | clearDeadlines id =>
    refine withDeadlines fun i q => (hrefl.withWorld ?_).answer _
    exact fun _ _ hs => hs
  | expire id now =>
    refine withDeadlines fun i q => (hrefl.withWorld ?_).push_free ?_
    · exact fun _ _ hs => hs
    · intro work hwork
      rcases List.mem_append.mp hwork with hwork | hwork
      · obtain ⟨task, -, rfl⟩ := List.mem_map.mp hwork
        rfl
      · rw [List.mem_singleton.mp hwork]
        rfl
  | deadlinesDebug id => exact withDeadlines fun i q => hrefl.answer _
  | service id config start =>
    rw [Command.panics] at hc
    rw [Machine.start]
    split
    · rename_i s hs
      rw [hs] at hc
      split
      · rename_i message hfault
        rw [hfault] at hc
        cases hc
      · refine ((hrefl.withWorld ?_).tell _).push_free ?_
        · exact fun _ _ hs => hs
        · simp [Work.owner?]
    · exact hrefl.answer _
  | schedule id plan timeout now =>
    refine withService fun i s => withFound fun task _ => ?_
    split
    · refine (hrefl.withWorld ?_).push_free ?_
      · exact fun _ _ hs => hs
      · simp [Work.owner?]
    · exact hrefl.answer _
  | setServiceClock id now =>
    refine withService fun i s => ?_
    have hclock := hrefl.withWorld (w := m.world.setServiceClock i ⟨now⟩) fun _ _ hs => hs
    dsimp only
    split
    · refine (hclock.withWorld ?_).push_free ?_
      · exact fun _ _ hs => hs
      · simp [Work.owner?]
    · exact hclock.answer _
  | serviceParts id => exact withService fun i s => hrefl.answer _
  | serviceDebug id => exact withService fun i s => hrefl.answer _
  | stopService id =>
    refine withService fun i s => ?_
    refine (hrefl.withWorld ?_).push_free ?_
    · exact fun _ _ hs => hs
    · simp [Work.owner?]
  | killService id plan timeout =>
    refine withService fun i s => withFound fun task _ => ?_
    split
    · refine (hrefl.withWorld ?_).answer _
      exact fun _ _ hs => hs
    · exact hrefl.answer _

/-! ## All entries of the agenda -/

open Effect in
theorem effect_returnPermits (m : Machine O) (won : Holder → Prop) (parent : Option Holder)
    (p : Permits (Release O)) (outcome : O) : Effect m won parent (m.returnPermits p outcome) := by
  have hrefl := refl m won parent
  unfold Machine.returnPermits
  cases p.release with
  | rail i => exact hrefl.collect _
  | scripted id clock script =>
    refine (hrefl.withWorld ?_).push_free ?_
    · exact fun _ _ hs => hs
    · simp [Work.owner?]

open Effect in
theorem effect_serve (m : Machine O) (won : Holder → Prop) (parent : Option Holder) (i : Nat) :
    Effect m won parent (m.serve i) := by
  have hrefl := refl m won parent
  have hgo (t : TimeoutService (Task O)) :
      Effect m won parent ({ m with world := m.world.storeService i t }.push [.serve i]) := by
    refine (hrefl.withWorld ?_).push_free ?_
    · exact fun _ _ hs => hs
    · simp [Work.owner?]
  unfold Machine.serve
  split
  · exact hrefl
  · split
    · exact hrefl
    · dsimp only
      split
      · exact hrefl
      · exact hgo _
      · split
        · refine (hrefl.withWorld ?_).push_free ?_
          · exact fun _ _ hs => hs
          · simp [Work.owner?]
        · split
          · exact hgo _
          · split
            · exact hgo _
            · exact hrefl

open Effect in
/-- **The effect of an entry of the agenda** that does not panic. -/
theorem effect_perform (m : Machine O) (work : Work O) (hwork : work.panics m.world = false) :
    Effect m (Wins m.world (work.target? m.world)) work.owner? (m.perform work) := by
  have hrefl := refl m (Wins m.world (work.target? m.world)) work.owner?
  cases work with
  | command c => exact (effect_start m c hwork).retire
  | report name =>
    refine hrefl.withWorld ?_
    exact fun _ _ hs => hs
  | script s =>
    cases s with
    | done => exact hrefl
    | act name c rest =>
      refine hrefl.push_free ?_
      simp [Work.owner?]
  | release h permits outcome => exact effect_returnPermits m _ _ permits outcome
  | wakeAll i =>
    rw [Machine.perform]
    split
    · rename_i p hp
      refine (hrefl.withWorld ?_).push ?_
      · intro k s hs
        rw [World.standing?_storePromise hp]
        split
        · rename_i hk
          subst hk
          rw [World.standing?, hp] at hs
          exact hs
        · exact hs
      · intro work hwork
        obtain ⟨waker, -, rfl⟩ := List.mem_map.mp hwork
        rintro k hk
        exact Or.inr ⟨rfl, Or.inl hk⟩
    · exact hrefl
  | wake i k =>
    refine (hrefl.withWorld ?_).push_free ?_
    · exact fun _ _ hs => hs
    · simp [Work.owner?]
  | drain i =>
    rw [Machine.perform]
    split
    · rename_i p hp
      have hstore :
        Effect m (Wins m.world ((Work.drain i).target? m.world)) (Work.owner? (.drain i : Work O))
          { m with world := m.world.storePromise i p.takeCallbacks.1 } := by
        refine hrefl.withWorld ?_
        intro k s hs
        rw [World.standing?_storePromise hp]
        split
        · rename_i hk
          subst hk
          rw [World.standing?, hp] at hs
          rw [← hs, Option.map_some]
          unfold Promise.takeCallbacks
          split <;> rfl
        · exact hs
      dsimp only
      split
      · split
        · exact hstore
        · refine hstore.push fun work hwork => ?_
          -- Listeners, links and the next round all belong to the promise whose callbacks are run.
          have hown : work.owner? = some (.promise i) ∧ work.isRelease = false := by
            rcases List.mem_append.mp hwork with hwork | hwork
            · rcases List.mem_append.mp hwork with hwork | hwork
              · obtain ⟨l, -, rfl⟩ := List.mem_map.mp hwork
                exact ⟨rfl, rfl⟩
              · obtain ⟨j, -, rfl⟩ := List.mem_map.mp hwork
                exact ⟨rfl, rfl⟩
            · rw [List.mem_singleton.mp hwork]
              exact ⟨rfl, rfl⟩
          rintro k hk
          exact Or.inr ⟨hown.2, Or.inl (hown.1.symm.trans hk)⟩
      · exact hstore
    · exact hrefl
  | listener i l c =>
    refine (hrefl.withWorld ?_).push_free ?_
    · exact fun _ _ hs => hs
    · simp [Work.owner?]
  | forward i j c => exact Effect.settle m (.promise j) c _
  | fire task =>
    cases task with
    | promise i => exact Effect.settle m (.promise i) .timeout _
    | completable i => exact Effect.settle m (.completable i) .timeout _
    | tagged tag script =>
      refine (hrefl.withWorld ?_).push_free ?_
      · exact fun _ _ hs => hs
      · simp [Work.owner?]
    | probe => exact hrefl
  | fired i =>
    rw [Machine.perform]
    split
    · refine hrefl.withWorld ?_
      exact fun _ _ hs => hs
    · exact hrefl
  | serve i => exact effect_serve m _ _ i
  | reply r => exact hrefl.answer r
  | replyPending i => exact (hrefl.answer _).retire
  | stopped i wasAccepting =>
    rw [Machine.perform]
    split
    · exact (hrefl.tell _).answer _
    · exact hrefl.answer _
  | await i =>
    -- The end of the wait stands behind what the attempt puts on the agenda.
    obtain ⟨hstanding, new, hnew, hsprings⟩ :=
      Effect.settle (m.push [.waited i m.last]) (.promise i) .cancelled none
    refine ⟨hstanding, new ++ [.waited i m.last], ?_, ?_⟩
    · rw [List.append_assoc]
      exact hnew
    · intro work hwork
      rcases List.mem_append.mp hwork with hwork | hwork
      · exact hsprings work hwork
      · rw [List.mem_singleton.mp hwork]
        exact Work.springs_of_owner?_eq_none rfl
  | waited i reply =>
    rw [Machine.perform]
    split
    · exact hrefl.answer _
    · exact hrefl

end Admission.Scenario
