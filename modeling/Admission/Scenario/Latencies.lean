import Admission.Scenario.Metrics

/-!
# Commands on histograms and latencies

## Main definitions

* `HistogramCommand`, `AccumulatorCommand`, `IntervalLatencyCommand`, `RollingLatencyCommand`: the
  commands
* their `run`: what each of them does and answers
-/

namespace Admission.Scenario

variable {O : Type} [Outcome O]

/-! ## Histograms -/

/-- Commands on histograms. -/
inductive HistogramCommand where
  | create (id : String) (highest : UInt64)
  | record (id : String) (value count : UInt64)
  | reset (id : String)
  /-- The number of values, whether there are none, and the bound. -/
  | info (id : String)
  | snapshot (id : String) (percentages : List Float)
  /-- The distribution of several histograms, laid out for a bound. -/
  | merge (ids : List String) (target : UInt64) (percentages : List Float)

/-- The place of a histogram. -/
def findHistogram (id : String) : BenchM O Nat :=
  find id fun | .histogram i => some i | _ => none

/-- The histogram under a name. -/
def fetchHistogram (id : String) : BenchM O Histogram := do
  fetch id (·.histograms) (← findHistogram id)

/-- Carries out a command on a histogram. -/
def HistogramCommand.run : HistogramCommand → BenchM O (Answer O)
  | create id highest => do
    let h ← attempt (Histogram.make highest)
    let i := (← get).histograms.size
    modify fun b => { b with histograms := b.histograms.push h }
    bind id (.histogram i)
    return .nothing
  | record id value count => do
    let i ← findHistogram id
    modify fun b => { b with histograms := b.histograms.modify i (·.record value count) }
    return .nothing
  | reset id => do
    let i ← findHistogram id
    modify fun b => { b with histograms := b.histograms.modify i (·.reset) }
    return .nothing
  | info id => do
    let h ← fetchHistogram id
    return .tuple [.word h.size, .truth h.isEmpty, .word h.highest]
  | snapshot id percentages => return .distribution (← fetchHistogram id).snapshot percentages
  | merge ids target percentages => do
    let hs ← ids.mapM fetchHistogram
    return .distribution (hs.foldl (fun d h => h.addTo d) (.empty target)) percentages

/-! ## Latencies per key -/

/-- Commands on latencies per key. -/
inductive AccumulatorCommand (O : Type) where
  | create (id : String) (highest : UInt64)
  | record (id : String) (key : O) (nanos : UInt64)
  | count (id : String) (key : O)
  | highest (id : String)
  | reset (id : String)
  | snapshot (id : String) (key : O) (percentages : List Float)
  /-- The distribution of several keys, laid out for a bound. -/
  | merge (id : String) (keys : List O) (target : UInt64) (percentages : List Float)

/-- The place of latencies per key. -/
def findAccumulator (id : String) : BenchM O Nat :=
  find id fun | .accumulator i => some i | _ => none

/-- The latencies per key under a name. -/
def fetchAccumulator (id : String) : BenchM O (LatencyAccumulator O) := do
  fetch id (·.accumulators) (← findAccumulator id)

/-- Carries out a command on latencies per key. -/
def AccumulatorCommand.run : AccumulatorCommand O → BenchM O (Answer O)
  | create id bound => do
    let a ← attempt (LatencyAccumulator.make bound)
    let i := (← get).accumulators.size
    modify fun b => { b with accumulators := b.accumulators.push a }
    bind id (.accumulator i)
    return .nothing
  | record id key nanos => do
    let i ← findAccumulator id
    modify fun b => { b with accumulators := b.accumulators.modify i (·.record key nanos) }
    return .nothing
  | count id key => return .word ((← fetchAccumulator id).count key)
  | highest id => return .word (← fetchAccumulator id).highest
  | reset id => do
    let i ← findAccumulator id
    modify fun b => { b with accumulators := b.accumulators.modify i (·.reset) }
    return .nothing
  | snapshot id key percentages => do
    return .distribution ((← fetchAccumulator id).snapshot key) percentages
  | merge id keys target percentages => do
    let a ← fetchAccumulator id
    return .distribution (keys.foldl (fun d k => a.addTo k d) (.empty target)) percentages

/-! ## Latencies since the previous look -/

/-- Commands on latencies since the previous look. -/
inductive IntervalLatencyCommand (O : Type) where
  | create (id : String) (highest : UInt64)
  | ofConfig (id : String) (config : LatencyConfig)
  | highest (id : String)
  | record (id : String) (key : O) (nanos : UInt64)
  | capture (id : String) (percentages : List Float)

/-- The place of latencies since the previous look. -/
def findIntervalLatency (id : String) : BenchM O Nat :=
  find id fun | .intervalLatency i => some i | _ => none

/-- Adds latencies since the previous look to the plant, under a name. -/
def addIntervalLatency (id : String) (l : IntervalLatency O) : BenchM O (Answer O) := do
  let i := (← get).plant.intervalLatencies.size
  modify fun b =>
    { b with plant := { b.plant with intervalLatencies := b.plant.intervalLatencies.push l } }
  bind id (.intervalLatency i)
  return .nothing

/-- Carries out a command on latencies since the previous look. -/
def IntervalLatencyCommand.run : IntervalLatencyCommand O → BenchM O (Answer O)
  | create id bound => do addIntervalLatency id (← attempt (IntervalLatency.make bound))
  | ofConfig id config => do addIntervalLatency id (← attempt (IntervalLatency.ofConfig config))
  | highest id => do
    let l ← fetch id (·.plant.intervalLatencies) (← findIntervalLatency id)
    return .word l.highest
  | record id key nanos => do
    let i ← findIntervalLatency id
    modify fun b =>
      { b with plant := { b.plant with
          intervalLatencies := b.plant.intervalLatencies.modify i (·.record key nanos) } }
    return .nothing
  | capture id percentages => do
    let i ← findIntervalLatency id
    let (l, c) := (← fetch id (·.plant.intervalLatencies) i).capture
    modify fun b =>
      { b with plant := { b.plant with
          intervalLatencies := b.plant.intervalLatencies.setIfInBounds i l } }
    let keys := (MetricKey.variants O).filterMap fun k =>
      if (c.get k).isEmpty then none else some (k, c.get k)
    return .capture keys c.merged percentages

/-! ## Latencies that can be looked back over -/

/-- Commands on rolling latencies. -/
inductive RollingLatencyCommand (O : Type) where
  | create (id : String) (buckets : UInt64) (width : Duration) (start highest : UInt64)
  | ofConfig (id : String) (window : WindowConfig) (latency : LatencyConfig) (start : UInt64)
  | highest (id : String)
  | info (id : String)
  /-- Counts a latency for a key at a timestamp. -/
  | record (id : String) (key : O) (nanos now : UInt64)
  /-- The distribution of a key over the whole window. -/
  | snapshot (id : String) (key : O) (now : UInt64) (percentages : List Float)
  /-- The distribution of a key over a span. -/
  | snapshotOver (id : String) (key : O) (span : Duration) (now : UInt64) (percentages : List Float)
  /-- The distribution of all keys over a span. -/
  | snapshotAllOver (id : String) (span : Duration) (now : UInt64) (percentages : List Float)

/-- The place of rolling latencies. -/
def findRollingLatency (id : String) : BenchM O Nat :=
  find id fun | .rollingLatency i => some i | _ => none

/-- The rolling latencies under a name. -/
def fetchRollingLatency (id : String) : BenchM O (RollingLatency O) := do
  fetch id (·.plant.rollingLatencies) (← findRollingLatency id)

/-- Adds rolling latencies to the plant, under a name. -/
def addRollingLatency (id : String) (l : RollingLatency O) : BenchM O (Answer O) := do
  let i := (← get).plant.rollingLatencies.size
  modify fun b =>
    { b with plant := { b.plant with rollingLatencies := b.plant.rollingLatencies.push l } }
  bind id (.rollingLatency i)
  return .nothing

/-- Carries out a command on rolling latencies. -/
def RollingLatencyCommand.run : RollingLatencyCommand O → BenchM O (Answer O)
  | create id buckets width start bound => do
    let shape ← attempt (RollingLatency.makeShape buckets width start bound)
    reserve buckets.toNat
    addRollingLatency id (.empty shape bound)
  | ofConfig id window latency start => do
    addRollingLatency id (← attempt (RollingLatency.ofConfig window latency start))
  | highest id => return .word (← fetchRollingLatency id).highest
  | info id => return shapeAnswer (← fetchRollingLatency id).window.shape
  | record id key nanos now => do
    let i ← findRollingLatency id
    modify fun b =>
      { b with plant := { b.plant with
          rollingLatencies := b.plant.rollingLatencies.modify i (·.record key nanos now) } }
    return .nothing
  | snapshot id key now percentages => do
    return .distribution ((← fetchRollingLatency id).snapshot key now) percentages
  | snapshotOver id key span now percentages => do
    return .distribution ((← fetchRollingLatency id).snapshotOver key span now) percentages
  | snapshotAllOver id span now percentages => do
    return .distribution ((← fetchRollingLatency id).snapshotAllOver span now) percentages

end Admission.Scenario
