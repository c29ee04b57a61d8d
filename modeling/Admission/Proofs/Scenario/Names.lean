import Admission.Proofs.Rail.Commands

/-!
# Names of promises

A name can be given anew, and then it leads to another object. The commands on the bench give names
to the objects that they make, and none of these is a promise: whatever name leads to a promise
after such a command led to it before. So names of promises are given by the commands that make
promises, and nowhere else.

## Main definitions

* `Handle.promise?`: the place of a promise
* `KeepsNames`: a command on the bench after which no other name leads to a promise than before

## Main results

* `KeepsNames.bind`: such commands can be carried out one after another
* `BenchCommand.keepsNames`: all commands on the bench are of this kind
* `names_acquireFrom`, `names_releaseTo`: requests and returns give no names at all
-/

namespace Admission.Scenario

variable {O : Type} [Outcome O]

/-- The place of a promise. -/
@[grind] def Handle.promise? : Handle → Option Nat
  | .promise i => some i
  | _ => none

theorem Bench.names_acquireFrom (b : Bench O) (i : Nat) (units now : UInt64) :
    (b.acquireFrom i units now).2.names = b.names := by
  unfold acquireFrom
  split <;> rfl

theorem Bench.names_releaseTo (b : Bench O) (i : Nat) (units : UInt64) (outcome : O)
    (start now : UInt64) : (b.releaseTo i units outcome start now).names = b.names := by
  unfold releaseTo
  split <;> rfl

/-- A command on the bench after which no other name leads to a promise than before. -/
def KeepsNames {α : Type} (x : BenchM O α) : Prop :=
  ∀ b a b', x.run b = .ok (a, b') →
    ∀ id i, b'.lookup id = some (.promise i) → b.lookup id = some (.promise i)

namespace KeepsNames

variable {α β : Type}

/-! ## The steps of a command -/

@[grind .] theorem pure (a : α) : KeepsNames (Pure.pure a : BenchM O α) := by
  intro b a' b' h
  cases h
  exact fun _ _ h => h

@[grind .] theorem get : KeepsNames (MonadState.get : BenchM O (Bench O)) := by
  intro b a' b' h
  cases h
  exact fun _ _ h => h

@[grind .] theorem throw (e : Fault) : KeepsNames (MonadExcept.throw e : BenchM O α) := by
  intro b a' b' h
  cases h

@[grind .] theorem bind {x : BenchM O α} {f : α → BenchM O β} (hx : KeepsNames x)
    (hf : ∀ a, KeepsNames (f a)) : KeepsNames (x >>= f) := by
  intro b a b' h id i hi
  rw [StateT.run_bind] at h
  cases hr : x.run b with
  | error e =>
    rw [hr] at h
    cases h
  | ok r =>
    obtain ⟨a', between⟩ := r
    rw [hr] at h
    exact hx b a' between hr id i (hf a' between a b' h id i hi)

@[grind .] theorem modify {f : Bench O → Bench O} (hf : (fun b => (f b).names) = fun b => b.names) :
    KeepsNames (modify f) := by
  intro b a b' h id i hi
  cases h
  have hnames : (f b).names = b.names := congrFun hf b
  unfold Bench.lookup at hi ⊢
  rwa [hnames] at hi

/-- A name that is given to something else than a promise leads to no promise any more. -/
@[grind .] theorem name (id : String) {h : Handle} (hh : h.promise? = none) :
    KeepsNames (Scenario.bind (O := O) id h) := by
  intro b a b' hr other i hi
  cases hr
  by_cases he : other = id
  · subst he
    rw [Bench.lookup_bind_self] at hi
    cases hi
    cases hh
  · rwa [Bench.lookup_bind_of_ne _ _ he] at hi

@[grind .] theorem find (id : String) (kind : Handle → Option α) :
    KeepsNames (Scenario.find (O := O) id kind) := by
  refine bind get fun b => ?_
  split
  · exact pure _
  · exact throw _

@[grind .] theorem fetch (id : String) (pool : Bench O → Array α) (i : Nat) :
    KeepsNames (Scenario.fetch (O := O) id pool i) := by
  refine bind get fun b => ?_
  split
  · exact pure _
  · exact throw _

@[grind .] theorem attempt (x : Except Error α) : KeepsNames (Scenario.attempt (O := O) x) := by
  cases x with
  | ok a => exact pure a
  | error e => exact throw _

@[grind .] theorem reserve (n : Nat) : KeepsNames (Scenario.reserve (O := O) n) := by
  unfold Scenario.reserve
  split
  · exact throw _
  · exact pure _

@[grind .] theorem mapM {f : α → BenchM O β} (hf : ∀ a, KeepsNames (f a)) (l : List α) :
    KeepsNames (l.mapM f) := by
  induction l with
  | nil => exact pure _
  | cons a l ih =>
    rw [List.mapM_cons]
    exact bind (hf a) fun b => bind ih fun bs => pure _

@[grind .] theorem mapM_option {f : α → BenchM O β} (hf : ∀ a, KeepsNames (f a)) (o : Option α) :
    KeepsNames (o.mapM f) := by
  cases o with
  | none => exact pure _
  | some a => exact bind (hf a) fun b => pure _

/-! ## What the commands share -/

@[grind .] theorem makeShape (buckets : UInt64) (width : Duration) (start : UInt64) :
    KeepsNames (Scenario.makeShape (O := O) buckets width start) := by
  grind [Scenario.makeShape]

@[grind .] theorem addResults (r : RollingCounts O) : KeepsNames (Scenario.addResults r) := by
  grind [Scenario.addResults]

@[grind .] theorem addIntervalLatency (id : String) (l : IntervalLatency O) :
    KeepsNames (Scenario.addIntervalLatency id l) := by
  grind [Scenario.addIntervalLatency]

@[grind .] theorem addRollingLatency (id : String) (l : RollingLatency O) :
    KeepsNames (Scenario.addRollingLatency id l) := by
  grind [Scenario.addRollingLatency]

@[grind .] theorem tell (notes : List (Note O Rejection)) : KeepsNames (Scenario.tell notes) := by
  grind [Scenario.tell]

@[grind .] theorem addGate (id : String) (g : Gate) :
    KeepsNames (Scenario.addGate (O := O) id g) := by
  grind [Scenario.addGate]

@[grind .] theorem storeGate (i : Nat) (g : Gate) :
    KeepsNames (Scenario.storeGate (O := O) i g) := by
  grind [Scenario.storeGate]

@[grind .] theorem fetchGate (id : String) : KeepsNames (Scenario.fetchGate (O := O) id) := by
  grind [Scenario.fetchGate, findGate]

@[grind .] theorem fetchChecker (id : String) : KeepsNames (Scenario.fetchChecker (O := O) id) := by
  grind [Scenario.fetchChecker, findChecker]

@[grind .] theorem turnChecker (id : String)
    (f : HealthChecker → RollingCounts O → HealthChecker × HealthSnapshot) :
    KeepsNames (Scenario.turnChecker id f) := by
  grind [Scenario.turnChecker, findChecker]

@[grind .] theorem fetchRail (id : String) : KeepsNames (Scenario.fetchRail (O := O) id) := by
  grind [Scenario.fetchRail, findRail]

/-- A gate is fetched together with the command that stores it again, so what follows may rely on
that command. -/
@[grind .] theorem fetchSemaphore_bind (id : String)
    {f : Semaphore × (Semaphore → BenchM O Unit) → BenchM O α}
    (hf : ∀ s store, (∀ t, KeepsNames (store t)) → KeepsNames (f (s, store))) :
    KeepsNames (fetchSemaphore id >>= f) := by
  rw [fetchSemaphore, bind_assoc]
  refine bind (fetchGate id) fun r => ?_
  split
  · rw [pure_bind]
    exact hf _ _ fun t => storeGate _ _
  · intro b a b' h
    cases h

@[grind .] theorem fetchLimiter_bind (id : String)
    {f : RateLimiter × (RateLimiter → BenchM O Unit) → BenchM O α}
    (hf : ∀ l store, (∀ t, KeepsNames (store t)) → KeepsNames (f (l, store))) :
    KeepsNames (fetchLimiter id >>= f) := by
  rw [fetchLimiter, bind_assoc]
  refine bind (fetchGate id) fun r => ?_
  split
  · rw [pure_bind]
    exact hf _ _ fun t => storeGate _ _
  · intro b a b' h
    cases h

@[grind .] theorem fetchBreaker_bind (id : String)
    {f : CircuitBreaker × Nat × (CircuitBreaker → BenchM O Unit) → BenchM O α}
    (hf : ∀ c m store, (∀ t, KeepsNames (store t)) → KeepsNames (f (c, m, store))) :
    KeepsNames (fetchBreaker id >>= f) := by
  rw [fetchBreaker, bind_assoc]
  refine bind (fetchGate id) fun r => ?_
  split
  · rw [pure_bind]
    exact hf _ _ _ fun t => storeGate _ _
  · intro b a b' h
    cases h

/-! ## The commands -/

theorem clock (c : ClockCommand) : KeepsNames (O := O) c.run := by
  cases c <;> grind [ClockCommand.run, findClock]

theorem counts {kind : Nat → Handle} (hk : ∀ i, (kind i).promise? = none)
    (place : Handle → Option Nat) (c : CountCommand O) : KeepsNames (c.run kind place) := by
  cases c <;> grind [CountCommand.run]

theorem rolling (c : RollingCommand O) : KeepsNames c.run := by
  cases c <;> grind [RollingCommand.run, findRolling, fetchRolling]

theorem window (c : WindowCommand) : KeepsNames (O := O) c.run := by
  cases c <;> grind [WindowCommand.run, findWindow, findCell, storeWindow]

theorem recorder (c : RecorderCommand) : KeepsNames (O := O) c.run := by
  cases c <;> grind [RecorderCommand.run, RecorderCommand.run.turn, findRecorder]

theorem histogram (c : HistogramCommand) : KeepsNames (O := O) c.run := by
  cases c <;> grind [HistogramCommand.run, fetchHistogram, findHistogram]

theorem accumulator (c : AccumulatorCommand O) : KeepsNames c.run := by
  cases c <;> grind [AccumulatorCommand.run, fetchAccumulator, findAccumulator]

theorem intervalLatency (c : IntervalLatencyCommand O) : KeepsNames c.run := by
  cases c <;> grind [IntervalLatencyCommand.run, findIntervalLatency]

theorem rollingLatency (c : RollingLatencyCommand O) : KeepsNames c.run := by
  cases c <;> grind [RollingLatencyCommand.run, findRollingLatency, fetchRollingLatency]

theorem gate (c : GateCommand O) : KeepsNames c.run := by
  cases c <;> grind [GateCommand.run, findRolling]

theorem health (c : HealthCommand) : KeepsNames (O := O) c.run := by
  cases c <;> grind [HealthCommand.run, findRolling]

theorem queue (c : QueueCommand) : KeepsNames (O := O) c.run := by
  cases c <;> grind [QueueCommand.run, findQueue, fetchQueue, storeQueue]

theorem buildRail (id : String) (plan : RailPlan) :
    KeepsNames (Scenario.buildRail (O := O) id plan) := by
  unfold Scenario.buildRail
  refine bind (mapM_option (fun id => find id _) _) fun clock => bind get fun b => ?_
  refine bind (mapM_option (fun id => find id _) _) fun given => ?_
  dsimp only
  -- The shape of the refusals is planned or not, and so are the results.
  split
  all_goals
    refine bind ?_ fun rejections => ?_
    · grind
    refine bind (mapM_option (fun id => find id _) _) fun rollingLatency => ?_
    refine bind (mapM_option (fun id => find id _) _) fun intervalLatency => ?_
    refine bind (mapM (fun id => find id _) _) fun chain => ?_
    split
    · refine bind (pure _) fun results => ?_
      grind
    · refine bind (attempt _) fun shape => bind (addResults _) fun results => ?_
      grind

theorem acquire (id : String) (units now : UInt64) :
    KeepsNames (O := O) (RailCommand.acquire id units now).run := by
  intro b a b' h
  rw [RailCommand.run_acquire] at h
  generalize b.find id _ = found at h
  cases found with
  | error e => cases h
  | ok i =>
    cases h
    unfold Bench.lookup
    rw [Bench.names_acquireFrom]
    exact fun _ _ h => h

theorem rail (c : RailCommand O) : KeepsNames c.run := by
  cases c with
  | create id plan => exact buildRail id plan
  | acquire id units now => exact acquire id units now
  | release id units outcome start now =>
    refine bind (find id _) fun i => bind (modify ?_) fun _ => pure _
    exact funext fun b => b.names_releaseTo i units outcome start now
  | _ => grind [RailCommand.run]

end KeepsNames

/-- **Commands on the bench give no names to promises.** -/
theorem BenchCommand.keepsNames (c : BenchCommand O) : KeepsNames c.run := by
  cases c with
  | clock c => exact KeepsNames.clock c
  | counts c => exact KeepsNames.counts (fun _ => rfl) _ c
  | totals c => exact KeepsNames.counts (fun _ => rfl) _ c
  | rolling c => exact KeepsNames.rolling c
  | window c => exact KeepsNames.window c
  | recorder c => exact KeepsNames.recorder c
  | histogram c => exact KeepsNames.histogram c
  | accumulator c => exact KeepsNames.accumulator c
  | intervalLatency c => exact KeepsNames.intervalLatency c
  | rollingLatency c => exact KeepsNames.rollingLatency c
  | gate c => exact KeepsNames.gate c
  | health c => exact KeepsNames.health c
  | rail c => exact KeepsNames.rail c
  | queue c => exact KeepsNames.queue c

end Admission.Scenario
