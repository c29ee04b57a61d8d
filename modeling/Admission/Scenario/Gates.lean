import Admission.Scenario.Metrics

/-!
# Commands on gates, health and guard rails

## Main definitions

* `GateCommand`, `HealthCommand`, `RailCommand`: the commands
* their `run`: what each of them does and answers
* `acquireFrom`, `releaseTo`: a request to a guard rail of the bench, and the return of its permits
-/

namespace Admission.Scenario

variable {O : Type} [Outcome O]

/-! ## Gates -/

/-- Commands on gates of one kind or of any kind. -/
inductive GateCommand (O : Type) where
  | semaphore (id name : String) (max : UInt64) (reason : Rejection)
  | semaphoreTake (id : String) (units : UInt64)
  | semaphoreGive (id : String) (units : UInt64)
  /-- The permits of a semaphore that are left, all of them, and those held. -/
  | semaphoreGauges (id : String)
  | limiter (id name : String) (allowed : UInt64) (period : Duration) (reason : Rejection)
      (now : UInt64)
  | limiterOfConfig (id name : String) (config : RateLimiterConfig) (reason : Rejection)
      (now : UInt64)
  | limiterTake (id : String) (units now : UInt64)
  /-- The count, the allowance, the period and the deadline of a rate limiter. -/
  | limiterGauges (id : String)
  /-- Makes a circuit breaker that judges by the results under a name. -/
  | breaker (id name : String) (config : BreakerConfig) (reason : Rejection) (metrics : String)
  | breakerState (id : String)
  | breakerConfig (id : String)
  | breakerHealth (id : String) (now : UInt64)
  | breakerStats (id : String) (now : UInt64)
  | forceOpen (id : String)
  | forceClosed (id : String)
  | scripted (id : String) (gate : ScriptedGate)
  | name (id : String)
  | acquire (id : String) (units now : UInt64)
  /-- Returns permits to a gate with an outcome. -/
  | release (id : String) (units : UInt64) (outcome : O) (now : UInt64)
  | releaseUnused (id : String) (units now : UInt64)

/-- The place of a gate. -/
def findGate (id : String) : BenchM O Nat :=
  find id fun | .gate i => some i | _ => none

/-- The gate under a name. -/
def fetchGate (id : String) : BenchM O (Nat × Gate) := do
  let i ← findGate id
  return (i, ← fetch id (·.plant.components) i)

/-- Replaces the gate at a place. -/
def storeGate (i : Nat) (g : Gate) : BenchM O Unit :=
  modify fun b =>
    { b with plant := { b.plant with components := b.plant.components.setIfInBounds i g } }

/-- Adds a gate to the plant, under a name. -/
def addGate (id : String) (g : Gate) : BenchM O (Answer O) := do
  let i := (← get).plant.components.size
  modify fun b => { b with plant := { b.plant with components := b.plant.components.push g } }
  bind id (.gate i)
  return .nothing

/-- Notes what happened. -/
def tell (notes : List (Note O Rejection)) : BenchM O Unit :=
  modify fun b => { b with plant := b.plant.tell notes }

/-- The semaphore under a name, with its place and how to store it. -/
def fetchSemaphore (id : String) : BenchM O (Semaphore × (Semaphore → BenchM O Unit)) := do
  match ← fetchGate id with
  | (i, .semaphore n reason s) => return (s, fun s => storeGate i (.semaphore n reason s))
  | _ => throw (.missing id)

/-- The rate limiter under a name, and how to store it. -/
def fetchLimiter (id : String) : BenchM O (RateLimiter × (RateLimiter → BenchM O Unit)) := do
  match ← fetchGate id with
  | (i, .limiter n reason l) => return (l, fun l => storeGate i (.limiter n reason l))
  | _ => throw (.missing id)

/-- The circuit breaker under a name, the place of its results, and how to store it. -/
def fetchBreaker (id : String) :
    BenchM O (CircuitBreaker × Nat × (CircuitBreaker → BenchM O Unit)) := do
  match ← fetchGate id with
  | (i, .breaker reason m b) => return (b, m, fun b => storeGate i (.breaker reason m b))
  | _ => throw (.missing id)

/-- Carries out a command on a gate. -/
def GateCommand.run : GateCommand O → BenchM O (Answer O)
  | semaphore id n max reason => do
    addGate id (.semaphore n reason (← attempt (Semaphore.make max)))
  | semaphoreTake id units => do
    let (s, store) ← fetchSemaphore id
    match s.tryAcquire units with
    | some s => store s; return .truth true
    | none => return .truth false
  | semaphoreGive id units => do
    let (s, store) ← fetchSemaphore id
    store (s.release units)
    return .nothing
  | semaphoreGauges id => do
    let (s, _) ← fetchSemaphore id
    return .tuple [.word s.remaining, .word s.maxConcurrency, .word s.held]
  | limiter id n allowed period reason now => do
    addGate id (.limiter n reason (← attempt (RateLimiter.make allowed period now)))
  | limiterOfConfig id n config reason now => do
    addGate id (.limiter n reason (← attempt (RateLimiter.ofConfig config now)))
  | limiterTake id units now => do
    let (l, store) ← fetchLimiter id
    let (l, granted) := l.tryAcquire units now
    store l
    return .truth granted
  | limiterGauges id => do
    let (l, _) ← fetchLimiter id
    return .tuple [.word l.count, .word l.allowed, .duration (.ofNanos l.period), .word l.deadline]
  | breaker id n config reason metrics => do
    let m ← findRolling metrics
    addGate id (.breaker reason m (← attempt (CircuitBreaker.make n config)))
  | breakerState id => do
    let (b, _) ← fetchBreaker id
    return .tuple [.text b.state.label, .truth b.isOpen]
  | breakerConfig id => do
    let (b, _) ← fetchBreaker id
    return .breakerConfig b.config
  | breakerHealth id now => do
    let (b, m, store) ← fetchBreaker id
    let results ← fetch id (·.plant.results) m
    let (checker, snapshot) := b.health.health results now
    store { b with health := checker }
    return .health snapshot
  | breakerStats id now => do
    let (b, _) ← fetchBreaker id
    return .breakerStats (b.stats now)
  | forceOpen id => do
    let (b, _, store) ← fetchBreaker id
    let (b, events) := b.forceOpen
    store b
    tell (events.map .diagnostic)
    return .nothing
  | forceClosed id => do
    let (b, _, store) ← fetchBreaker id
    let (b, events) := b.forceClosed
    store b
    tell (events.map .diagnostic)
    return .nothing
  | scripted id gate => addGate id (.scripted gate)
  | name id => do
    let (_, g) ← fetchGate id
    return .text g.name
  | acquire id units now => do
    let (i, g) ← fetchGate id
    let (answer, g, notes) := g.acquire units now
    storeGate i g
    tell notes
    return .refusal answer
  | release id units outcome now => do
    let (i, g) ← fetchGate id
    let (g, notes) := g.release units outcome now (← get).plant.results
    storeGate i g
    tell notes
    return .nothing
  | releaseUnused id units now => do
    let (i, g) ← fetchGate id
    let (g, notes) := g.releaseUnused (O := O) units now
    storeGate i g
    tell notes
    return .nothing

/-! ## Health -/

/-- Commands on health checkers. -/
inductive HealthCommand where
  /-- Makes a checker of the results under a name. -/
  | create (id metrics : String) (trailing refresh : Duration)
  /-- The kept snapshot, taken again if it is due. -/
  | health (id : String) (now : UInt64)
  | refresh (id : String) (now : UInt64)
  | cached (id : String)
  | aggregations (id : String)
  | trailing (id : String)

/-- The place of a health checker. -/
def findChecker (id : String) : BenchM O Nat :=
  find id fun | .checker i => some i | _ => none

/-- The health checker under a name. -/
def fetchChecker (id : String) : BenchM O PlacedChecker := do
  fetch id (·.checkers) (← findChecker id)

/-- Applies a step to a health checker and answers with the snapshot it tells. -/
def turnChecker (id : String)
    (f : HealthChecker → RollingCounts O → HealthChecker × HealthSnapshot) :
    BenchM O (Answer O) := do
  let i ← findChecker id
  let p ← fetch id (·.checkers) i
  let (checker, snapshot) := f p.checker (← fetch id (·.plant.results) p.metrics)
  modify fun b => { b with checkers := b.checkers.setIfInBounds i { p with checker } }
  return .health snapshot

/-- Carries out a command on a health checker. -/
def HealthCommand.run : HealthCommand → BenchM O (Answer O)
  | create id metrics span interval => do
    let m ← findRolling metrics
    let i := (← get).checkers.size
    modify fun b => { b with checkers := b.checkers.push ⟨.make span interval, m⟩ }
    bind id (.checker i)
    return .nothing
  | health id now => turnChecker id fun c r => c.health r now
  | refresh id now => turnChecker id fun c r => c.refresh r now
  | cached id => return .health (← fetchChecker id).checker.cached
  | aggregations id => return .word (← fetchChecker id).checker.aggregations
  | trailing id => return .duration (← fetchChecker id).checker.trailing

/-! ## Guard rails -/

/-- What a guard rail is put together from; all parts but the name may be left out. -/
structure RailPlan where
  name : String
  clock : Option String
  /-- The name of the rolling counts for its results. -/
  results : Option String
  /-- The shape of its rolling counts of refusals. -/
  rejections : Option (UInt64 × Duration × UInt64)
  rollingLatency : Option String
  /-- The name of latencies since the previous look. -/
  intervalLatency : Option String
  gates : List String
  observers : List Observer

/-- Commands on guard rails. -/
inductive RailCommand (O : Type) where
  | create (id : String) (plan : RailPlan)
  | acquire (id : String) (units now : UInt64)
  | release (id : String) (units : UInt64) (outcome : O) (start now : UInt64)
  | releaseUnused (id : String) (units now : UInt64)
  | totals (id : String)
  | recent (id : String) (now : UInt64)
  | recentBuckets (id : String) (now : UInt64)
  | parts (id : String)
  | time (id : String)
  | debug (id : String)

/-- The place of a guard rail. -/
def findRail (id : String) : BenchM O Nat :=
  find id fun | .rail i => some i | _ => none

/-- The guard rail under a name. -/
def fetchRail (id : String) : BenchM O (PlacedRail O) := do
  fetch id (·.rails) (← findRail id)

/-- Asks the guard rail at a place for permits. -/
def Bench.acquireFrom (b : Bench O) (i : Nat) (units now : UInt64) : Option Rejection × Bench O :=
  match b.rails[i]? with
  | some r =>
    let (answer, rail, plant) := r.rail.acquire units now b.plant
    (answer, { b with rails := b.rails.setIfInBounds i { r with rail }, plant })
  | none => (none, b)

/-- Returns permits with an outcome to the guard rail at a place. -/
def Bench.releaseTo (b : Bench O) (i : Nat) (units : UInt64) (outcome : O) (start now : UInt64) :
    Bench O :=
  match b.rails[i]? with
  | some r =>
    let (rail, plant) := r.rail.release units outcome start now b.plant
    { b with rails := b.rails.setIfInBounds i { r with rail }, plant }
  | none => b

/-- The name of the component at a place. -/
def Bench.gateName (b : Bench O) (i : Nat) : String :=
  (b.plant.components[i]?.map Gate.name).getD ""

/-- The debug form of a guard rail. -/
def railText (name : String) (gates : List String) (observers : Nat) : String :=
  DebugText.record "GuardRail"
    [("name", DebugText.quoted name),
      ("backpressure", DebugText.list (gates.map DebugText.quoted)),
      ("observers", toString observers)]

/-- Puts a guard rail together. The parts are looked up in the order in which the plan lists them,
and rolling counts that are left out have sixty buckets of a second from the time of the clock
on. -/
def buildRail (id : String) (plan : RailPlan) : BenchM O (Answer O) := do
  let clock ← plan.clock.mapM findClock
  let start := (← get).railTime clock
  let given ← plan.results.mapM findRolling
  let rejections ← match plan.rejections with
    | some (buckets, width, start) => makeShape buckets width start
    | none => attempt (Window.Shape.ofConfig {} start)
  let rollingLatency ← plan.rollingLatency.mapM fun id =>
    find id fun | .rollingLatency i => some i | _ => none
  let intervalLatency ← plan.intervalLatency.mapM fun id =>
    find id fun | .intervalLatency i => some i | _ => none
  let chain ← plan.gates.mapM findGate
  let results ← match given with
    | some i => pure i
    | none => addResults (← attempt (RollingCounts.ofConfig {} start))
  let rail : GuardRail Nat O Rejection :=
    { name := plan.name, chain, observers := plan.observers, results, rollingLatency,
      intervalLatency, rejections := .empty rejections }
  let i := (← get).rails.size
  modify fun b => { b with rails := b.rails.push { rail, clock } }
  tell [.diagnostic (.railBuilt plan.name chain.length)]
  bind id (.rail i)
  return .nothing

/-- The counts of every key of a vocabulary over the whole window. -/
def recentCounts {K : Type} [MetricKey K] (r : RollingCounts K) (now : UInt64) : List UInt64 :=
  (MetricKey.variants K).map fun k => r.count k now

/-- Carries out a command on a guard rail. -/
def RailCommand.run : RailCommand O → BenchM O (Answer O)
  | create id plan => buildRail id plan
  | acquire id units now => do
    let i ← findRail id
    let (answer, b) := (← get).acquireFrom i units now
    set b
    return .refusal answer
  | release id units outcome start now => do
    let i ← findRail id
    modify (·.releaseTo i units outcome start now)
    return .nothing
  | releaseUnused id units now => do
    let r ← fetchRail id
    modify fun b => { b with plant := r.rail.releaseUnused units now b.plant }
    return .nothing
  | totals id => do
    let r := (← fetchRail id).rail
    return .totals r.resultTotals.toList r.rejectionTotals.toList r.resultTotals.total
      r.rejectionTotals.total
  | recent id now => do
    let r := (← fetchRail id).rail
    let results ← fetch id (·.plant.results) r.results
    return .recent (recentCounts results now) (recentCounts r.rejections now)
  | recentBuckets id now => do
    let r := (← fetchRail id).rail
    let results ← fetch id (·.plant.results) r.results
    return .recentBuckets (bucketRows (results.window.intervals now))
      (bucketRows (r.rejections.window.intervals now))
  | parts id => do
    let r := (← fetchRail id).rail
    let b ← get
    return .railParts r.name (r.chain.map b.gateName)
      ((r.rollingLatency.bind (b.plant.rollingLatencies[·]?)).map (·.highest))
      ((r.intervalLatency.bind (b.plant.intervalLatencies[·]?)).map (·.highest))
  | time id => do
    let r ← fetchRail id
    return .word ((← get).railTime r.clock)
  | debug id => do
    let r := (← fetchRail id).rail
    let b ← get
    return .text (railText r.name (r.chain.map b.gateName) r.observers.length ++ " "
      ++ DebugText.hidden "ReleaseFunction")

end Admission.Scenario
