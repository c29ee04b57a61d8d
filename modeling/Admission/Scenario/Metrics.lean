import Admission.Scenario.Bench
import Admission.Text.Debug

/-!
# Commands on clocks, counts and windows

## Main definitions

* `ClockCommand`, `CountCommand`, `RollingCommand`, `WindowCommand`, `RecorderCommand`: the commands
* their `run`: what each of them does and answers
-/

namespace Admission.Scenario

variable {O : Type} [Outcome O]

/-! ## Clocks -/

/-- Commands on clocks that are moved by hand. -/
inductive ClockCommand where
  | create (id : String) (start : UInt64)
  | set (id : String) (now : UInt64)
  | advance (id : String) (span : Duration)
  | read (id : String)

/-- The place of a clock. -/
def findClock (id : String) : BenchM O Nat :=
  find id fun | .clock i => some i | _ => none

/-- Carries out a command on a clock. -/
def ClockCommand.run : ClockCommand → BenchM O (Answer O)
  | create id start => do
    let i := (← get).clocks.size
    modify fun b => { b with clocks := b.clocks.push ⟨start⟩ }
    bind id (.clock i)
    return .nothing
  | set id now => do
    let i ← findClock id
    modify fun b => { b with clocks := b.clocks.modify i (·.set now) }
    return .nothing
  | advance id span => do
    let i ← findClock id
    modify fun b => { b with clocks := b.clocks.modify i (·.advance span) }
    return .nothing
  | read id => do
    let c ← fetch id (·.clocks) (← findClock id)
    return .word c.now

/-! ## Counts -/

/-- Commands on counts per key. -/
inductive CountCommand (O : Type) where
  | create (id : String)
  | add (id : String) (key : O) (delta : UInt64)
  | get (id : String) (key : O)
  | total (id : String)
  | failures (id : String)
  | successes (id : String)

/-- Carries out a command on counts that are known as objects of a given kind. -/
def CountCommand.run (kind : Nat → Handle) (place : Handle → Option Nat) :
    CountCommand O → BenchM O (Answer O)
  | create id => do
    let i := (← MonadState.get).counters.size
    modify fun b => { b with counters := b.counters.push .zero }
    bind id (kind i)
    return .nothing
  | add id key delta => do
    let i ← find id place
    modify fun b => { b with counters := b.counters.modify i (·.add key delta) }
    return .nothing
  | get id key => do
    let c ← fetch id (·.counters) (← find id place)
    return .word (c.get key)
  | total id => do
    let c ← fetch id (·.counters) (← find id place)
    return .word c.total
  | failures id => do
    let c ← fetch id (·.counters) (← find id place)
    return .word (c.totalWhere Outcome.isFailure)
  | successes id => do
    let c ← fetch id (·.counters) (← find id place)
    return .word (c.totalWhere Outcome.isSuccess)

/-- Carries out a command on counts. -/
def CountCommand.runCounts : CountCommand O → BenchM O (Answer O) :=
  run .counts fun | .counts i => some i | _ => none

/-- Carries out a command on counts that are kept for ever. -/
def CountCommand.runTotals : CountCommand O → BenchM O (Answer O) :=
  run .totals fun | .totals i => some i | _ => none

/-! ## Rolling counts -/

/-- Commands on rolling counts. -/
inductive RollingCommand (O : Type) where
  | create (id : String) (buckets : UInt64) (width : Duration) (start : UInt64)
  | ofConfig (id : String) (config : WindowConfig) (start : UInt64)
  | add (id : String) (key : O) (delta now : UInt64)
  /-- The count of a key over the whole window. -/
  | count (id : String) (key : O) (now : UInt64)
  /-- The count of a key over a span. -/
  | countOver (id : String) (key : O) (span : Duration) (now : UInt64)
  /-- The count of all keys over a span. -/
  | totalOver (id : String) (span : Duration) (now : UInt64)
  | info (id : String)
  /-- The buckets of the whole window or of a span. -/
  | intervals (id : String) (now : UInt64) (span : Option Duration)

/-- The place of rolling counts. -/
def findRolling (id : String) : BenchM O Nat :=
  find id fun | .rolling i => some i | _ => none

/-- The rolling counts under a name. -/
def fetchRolling (id : String) : BenchM O (RollingCounts O) := do
  fetch id (·.plant.results) (← findRolling id)

/-- Adds result counts to the plant and tells their place. -/
def addResults (r : RollingCounts O) : BenchM O Nat := do
  let i := (← get).plant.results.size
  modify fun b => { b with plant := { b.plant with results := b.plant.results.push r } }
  return i

/-- The shape of a window as an answer. -/
def shapeAnswer (s : Window.Shape) : Answer O :=
  .tuple [.word s.bucketCount, .number s.capacity, .duration (.ofNanos s.width)]

/-- Buckets of counts with the counts of all keys. -/
def bucketRows {K : Type} [MetricKey K] (rows : List (Window.Interval (Counts K))) :
    List (Window.Interval (List UInt64)) :=
  rows.map fun i => ⟨i.slot, i.start, i.stop, i.value.toList⟩

/-- Carries out a command on rolling counts. -/
def RollingCommand.run : RollingCommand O → BenchM O (Answer O)
  | create id buckets width start => do
    let shape ← makeShape buckets width start
    bind id (.rolling (← addResults (.empty shape)))
    return .nothing
  | ofConfig id config start => do
    let counts ← attempt (RollingCounts.ofConfig config start)
    bind id (.rolling (← addResults counts))
    return .nothing
  | add id key delta now => do
    let i ← findRolling id
    modify fun b =>
      { b with plant := { b.plant with results := b.plant.results.modify i (·.add key delta now) } }
    return .nothing
  | count id key now => return .word ((← fetchRolling id).count key now)
  | countOver id key span now => return .word ((← fetchRolling id).countOver key span now)
  | totalOver id span now => return .word ((← fetchRolling id).totalOver span now)
  | info id => return shapeAnswer (← fetchRolling id).window.shape
  | intervals id now span => do
    let w := (← fetchRolling id).window
    return .buckets (bucketRows (match span with
      | some span => w.intervalsOver now span
      | none => w.intervals now))

/-! ## Windows of cells -/

/-- Commands on windows of cells. -/
inductive WindowCommand where
  /-- Makes a window in which making each of the first cells brings about an addition. -/
  | create (id : String) (buckets : UInt64) (width : Duration) (start : UInt64)
      (nested : List Addition)
  /-- Adds to the cell of a slot and tells its count before. -/
  | add (id : String) (a : Addition)
  /-- Keeps the cell of a slot under a name. -/
  | current (id : String) (now : UInt64) (as : String)
  | slotFor (id : String) (now : UInt64)
  | info (id : String)
  | debug (id : String)
  /-- Walks over the buckets of the whole window or of a span, with additions before some steps. -/
  | intervals (id : String) (now : UInt64) (span : Option Duration) (writes : List (Nat × Addition))
  /-- Adds to a cell and tells its count before. -/
  | cellAdd (id : String) (delta : UInt64)
  | cellGet (id : String)
  /-- Whether two names stand for the same cell. -/
  | cellSame (id other : String)

/-- The place of a window of cells. -/
def findWindow (id : String) : BenchM O Nat :=
  find id fun | .window i => some i | _ => none

/-- The place of a cell. -/
def findCell (id : String) : BenchM O (Nat × Nat) :=
  find id fun | .cell w c => some (w, c) | _ => none

/-- Replaces the window of cells at a place. -/
def storeWindow (i : Nat) (w : CellWindow) : BenchM O Unit :=
  modify fun b => { b with windows := b.windows.setIfInBounds i w }

/-- The debug form of a window. -/
def windowText (s : Window.Shape) : String :=
  DebugText.record "RollingWindow"
    [("bucket_count", DebugText.number s.bucketCount), ("capacity", toString s.capacity),
      ("bucket_width_nanos", DebugText.number s.width), ("start", DebugText.number s.start)]

/-- A walk over a window of cells: the additions due before each step are made, and the walk goes on
until its third step past the end, which is not told. Every step but those past the end takes a slot
off the walk, so the given number of steps suffices if it is three more than there are slots. -/
def walk (writes : List (Nat × Addition)) :
    (steps k ends : Nat) → Window.Cursor → CellWindow →
      List (Option (Window.Interval UInt64)) × CellWindow
  | 0, _, _, _, s => ([], s)
  | steps + 1, k, ends, cursor, s =>
    let s := (writes.filter (·.1 == k)).foldl (fun s w => (s.add w.2).1) s
    match cursor.next s.window with
    | (some i, cursor) =>
      let row := { i with value := s.count i.value }
      let (rows, s) := walk writes steps (k + 1) ends cursor s
      (some row :: rows, s)
    | (none, cursor) =>
      if ends < 2 then
        let (rows, s) := walk writes steps (k + 1) (ends + 1) cursor s
        (none :: rows, s)
      else ([], s)

/-- Carries out a command on a window of cells. -/
def WindowCommand.run : WindowCommand → BenchM O (Answer O)
  | create id buckets width start nested => do
    let shape ← makeShape buckets width start
    let i := (← get).windows.size
    modify fun b => { b with windows := b.windows.push ⟨.empty shape, nested.map ([·]), #[]⟩ }
    bind id (.window i)
    return .nothing
  | add id a => do
    let i ← findWindow id
    let (w, before) := (← fetch id (·.windows) i).add a
    storeWindow i w
    return .word before
  | current id now as => do
    let i ← findWindow id
    let (w, cell) := (← fetch id (·.windows) i).current now
    storeWindow i w
    bind as (.cell i cell)
    return .nothing
  | slotFor id now => do
    let w ← fetch id (·.windows) (← findWindow id)
    return .word (w.window.shape.slotOf now)
  | info id => do
    let w ← fetch id (·.windows) (← findWindow id)
    return shapeAnswer w.window.shape
  | debug id => do
    let w ← fetch id (·.windows) (← findWindow id)
    return .text (windowText w.window.shape)
  | intervals id now span writes => do
    let i ← findWindow id
    let w ← fetch id (·.windows) i
    let cursor := match span with
      | some span => w.window.cursorOver now span
      | none => w.window.cursor now
    let (rows, w) := walk writes (cursor.remaining.length + 3) 0 0 cursor w
    storeWindow i w
    return .steps rows
  | cellAdd id delta => do
    let (i, cell) ← findCell id
    let w ← fetch id (·.windows) i
    storeWindow i (w.bump cell delta)
    return .word (w.count cell)
  | cellGet id => do
    let (i, cell) ← findCell id
    let w ← fetch id (·.windows) i
    return .word (w.count cell)
  | cellSame id other => do
    let a ← findCell id
    let b ← findCell other
    return .truth (a == b)

/-! ## Recorders -/

/-- Commands on recorders of a count. -/
inductive RecorderCommand where
  | create (id : String)
  /-- Adds to the count and tells what it was before. -/
  | record (id : String) (n : UInt64)
  | capture (id : String)
  /-- Takes the count while a writer is inside, who adds to it meanwhile. -/
  | captureDuringRecord (id : String) (n : UInt64)

/-- The place of a recorder. -/
def findRecorder (id : String) : BenchM O Nat :=
  find id fun | .recorder i => some i | _ => none

/-- Carries out a command on a recorder. -/
def RecorderCommand.run : RecorderCommand → BenchM O (Answer O)
  | create id => do
    let i := (← get).recorders.size
    modify fun b => { b with recorders := b.recorders.push { first := 0, second := 0 } }
    bind id (.recorder i)
    return .nothing
  | record id n => turn id fun r => r.record fun count => (count + n, count)
  | capture id => turn id fun r => r.capture (fun count => count) fun _ => 0
  | captureDuringRecord id n =>
    turn id fun r =>
      r.captureDuring (fun count => (count + n, count)) (fun count => count) fun _ => 0
where
  /-- Applies a step to a recorder and answers with the word it tells. -/
  turn (id : String) (f : Recorder UInt64 → Recorder UInt64 × UInt64) : BenchM O (Answer O) := do
    let i ← findRecorder id
    let (r, n) := f (← fetch id (·.recorders) i)
    modify fun b => { b with recorders := b.recorders.setIfInBounds i r }
    return .word n

end Admission.Scenario
