import Admission.Scenario.World

/-!
# Carrying out commands

Commands and callbacks are carried out in small steps by a machine with an agenda: what is to be
done next stands first. A command that starts callbacks puts them on the agenda in front of what
follows it, so a callback runs to its end, with all that it starts itself, before the call that
started it returns.

A panic drops the agenda up to the nearest entry that contains it: the end of a task of a timeout
service, or of a wait for a promise; if there is none, it drops all of it.

A command that waits for a timeout service sends it a probe, behind all that is due, and the worker
then goes on as far as it can before the command has its reply. The machine does not stop at a
deadlock; it is told from the world that there is one.

## Main definitions

* `Work O`: the entries of the agenda
* `Machine O`: a world with an agenda, and the reply of the command that ended last
* `Machine.start`: carries out a command as far as it does not call back
* `Machine.step`, `Machine.run`: the first entry of the agenda, and all of it
* `World.perform`: carries out a command with all its callbacks
-/

namespace Admission.Scenario

/-- An entry of the agenda. -/
inductive Work (O : Type) where
  | command (c : Command O)
  /-- Note the reply of an action under its name. -/
  | report (name : String)
  | script (s : Script O)
  | release (holder : Holder) (permits : Permits (Release O)) (outcome : O)
  /-- Wake those who wait for the promise at a place. -/
  | wakeAll (promise : Nat)
  | wake (promise : Nat) (waker : Waker O)
  /-- Run the callbacks of the promise at a place until none is left. -/
  | drain (promise : Nat)
  | listener (promise : Nat) (l : Listener O) (c : Completion O)
  /-- Forward a completion to the promise at another place, whether or not that one is pending. -/
  | forward (promise target : Nat) (c : Completion O)
  | fire (task : Task O)
  /-- The end of a task of the timeout service at a place, where a panic of the task ends too. -/
  | fired (service : Nat)
  /-- Let the worker of the timeout service at a place go on until it waits. -/
  | serve (service : Nat)
  | reply (r : Reply O)
  /-- Reply with the number of pending tasks of the timeout service at a place. -/
  | replyPending (service : Nat)
  /-- Report that the timeout service at a place was stopped, and reply. -/
  | stopped (service : Nat) (wasAccepting : Bool)
  /-- The end of a command during which somebody waits for the promise at a place, where a panic of
  the command ends too. -/
  | await (promise : Nat)
  /-- The end of a wait for the promise at a place. -/
  | waited (promise : Nat) (reply : Reply O)

/-- A world in which commands and callbacks are being carried out. -/
structure Machine (O : Type) [Outcome O] where
  world : World O
  /-- What is to be done, the next first. -/
  agenda : List (Work O)
  /-- The reply of the command that ended last. -/
  last : Reply O := .ok .nothing

namespace Machine

variable {O : Type} [Outcome O]

/-- Puts work in front of the agenda. -/
def push (m : Machine O) (work : List (Work O)) : Machine O := { m with agenda := work ++ m.agenda }

/-- Ends a command with a reply. -/
def answer (m : Machine O) (r : Reply O) : Machine O := { m with last := r }

/-- The timeout service on whose thread work is being done, if any. -/
def thread? (m : Machine O) : Option Nat :=
  m.agenda.findSome? fun
    | .fired s => some s
    | _ => none

/-- Whether a task of the given timeout service is being fired. -/
def isFiring (m : Machine O) (service : Nat) : Bool :=
  m.agenda.any fun
    | .fired s => s == service
    | _ => false

/-- Whether a task of some timeout service is being fired. What the library reports meanwhile goes
unheard, since it happens on the thread of the service. -/
def isUnheard (m : Machine O) : Bool :=
  m.agenda.any fun
    | .fired _ => true
    | _ => false

/-- Whether a command that waits for the worker of the given timeout service has still to reply. -/
def isAwaited (m : Machine O) (service : Nat) : Bool :=
  m.agenda.any fun
    | .replyPending s => s == service
    | _ => false

/-- Adds notes to the log, without reports that go unheard. -/
def tell (m : Machine O) (notes : List (Note O Rejection)) : Machine O :=
  let heard := notes.filter fun
    | .diagnostic _ => !m.isUnheard
    | _ => true
  { m with world := m.world.note (heard.map .note) }

/-- Moves the notes of the bench to the log. -/
def collect (m : Machine O) (b : Bench O) : Machine O :=
  { m with world :=
    { m.world with bench := { b with plant := { b.plant with notes := [] } } } }.tell
    b.plant.notes

/-- The work that follows the completion of the promise at a place. -/
def afterSettle (i : Nat) (permits : Option (Permits (Release O))) (c : Completion O) :
    List (Work O) :=
  (permits.map fun p => Work.release (.promise i) p c.outcome).toList ++ [.wakeAll i, .drain i]

/-- Completes the promise at a place, and tells whether it was pending. -/
def settlePromise (m : Machine O) (i : Nat) (c : Completion O) : Bool × Machine O :=
  match m.world.settlePromise i c with
  | some (w, permits) => (true, { m with world := w }.push (afterSettle i permits c))
  | none => (false, m)

/-- Completes the completable at a place, and tells whether it was pending. -/
def settleCompletable (m : Machine O) (i : Nat) (c : Completion O) : Bool × Machine O :=
  match m.world.settleCompletable i c with
  | some (w, permits) =>
    (true, { m with world := w }.push
      (permits.map fun p => Work.release (.completable i) p c.outcome).toList)
  | none => (false, m)

/-- Drops the agenda up to the nearest entry that contains a panic. -/
def unwind (m : Machine O) (message : String) : Machine O :=
  { m with
    last := .error (.panicked message)
    agenda := m.agenda.dropWhile fun
      | .fired _ => false
      | .await _ => false
      | _ => true }

/-! ## Commands -/

/-- Goes on with the value of a look-up, or ends the command. -/
def withFound {α : Type} (m : Machine O) (found : Except Fault α) (f : α → Machine O) : Machine O :=
  match found with
  | .ok a => f a
  | .error e => m.answer (.error e)

/-- The debug form of a promise. -/
def promiseText (p : ScenarioPromise O) : String :=
  let permits := p.permits.map fun k =>
    DebugText.record "PermitContext"
      [("units", DebugText.number k.units), ("start_nanos", DebugText.number k.start)]
  DebugText.record "Promise"
    [("status", p.status.label), ("permits", DebugText.option permits)]

/-- The answer of a promise to a question. -/
def askPromise (p : ScenarioPromise O) : PromiseQuery → Answer O
  | .status => .tuple [.text p.status.label, .truth p.status.isTerminal, .truth p.isDone]
  | .result => .ofOption .completion p.result
  | .intoResult =>
    match p.result with
    | some c => match c.value? with
      | some v => .value v
      | none => .failure c
    | none => .nothing
  | .permits => .ofOption (fun k => .tuple [.word k.units, .word k.start]) p.permits
  | .debug => .text (promiseText p)

/-- The debug form of a deadline queue. -/
def deadlinesText (q : TimeoutQueue (Task O)) : String :=
  DebugText.record "TimeoutQueue"
    [("len", toString q.size),
      ("next_deadline", DebugText.option (q.nextDeadline.map DebugText.number))]

/-- The debug form of a timeout service. -/
def serviceText (s : TimeoutService (Task O)) : String :=
  DebugText.record "TimeoutService"
    [("name", DebugText.quoted s.name), ("accepting", DebugText.bool s.accepting),
      ("pending", toString s.pending)]

/-- Sends a probe: it has been fired when all has been fired that is due at `now`. -/
def probe (s : TimeoutService (Task O)) (now : UInt64) : TimeoutService (Task O) :=
  match s.schedule .probe ⟨0⟩ now with
  | .ok t => t
  | .error _ => s

/-- Goes on with the promise under a name. -/
def withPromise (m : Machine O) (id : String)
    (f : Nat → ScenarioPromise O → Machine O) : Machine O :=
  m.withFound (m.world.findPromise id) fun i =>
    match m.world.promises[i]? with
    | some p => f i p
    | none => m.answer (.error (.missing id))

/-- Goes on with the deadline queue under a name. -/
def withDeadlines (m : Machine O) (id : String) (f : Nat → TimeoutQueue (Task O) → Machine O) :
    Machine O :=
  m.withFound (m.world.findDeadlines id) fun i =>
    match m.world.deadlines[i]? with
    | some q => f i q
    | none => m.answer (.error (.missing id))

/-- Goes on with the timeout service under a name. -/
def withService (m : Machine O) (id : String) (f : Nat → PlacedService O → Machine O) : Machine O :=
  m.withFound (m.world.findService id) fun i =>
    match m.world.services[i]? with
    | some s => f i s
    | none => m.answer (.error (.missing id))

/-- Asks the guard rail under a name for permits unless they are held already, and goes on with a
way to return them. -/
def withPermits (m : Machine O) (rail : String) (units now : UInt64) (held : Bool)
    (f : Permits (Release O) → World O → World O) : Machine O :=
  m.withFound (m.world.findRail rail) fun i =>
    let (refusal, m) :=
      if held then (none, m)
      else
        let (refusal, b) := m.world.bench.acquireFrom i units now
        (refusal, m.collect b)
    match refusal with
    -- A refusal holds nothing, so nothing is made that could return it.
    | some r => m.answer (.ok (Answer.refusal (some r)))
    | none =>
      { m with world := f { units, start := now, release := .rail i } m.world }.answer
        (.ok .nothing)

/-- Carries out a command as far as it does not call back. What it starts goes on the agenda, and
its reply after that. -/
def start (m : Machine O) : Command O → Machine O
  | .bench c =>
    match c.run.run m.world.bench with
    | .ok (a, b) => (m.collect b).answer (.ok a)
    | .error (.panicked message) => m.unwind message
    | .error e => m.answer (.error e)
  | .panic message => m.unwind message
  | .promise id => { m with world := m.world.addPromise id none }.answer (.ok .nothing)
  | .promiseWithPermits id clock units start script =>
    m.withFound (m.world.findClock clock) fun c =>
      let permits := { units, start, release := .scripted id c script }
      { m with world := m.world.addPromise id (some permits) }.answer (.ok .nothing)
  | .settle id c =>
    m.withFound (m.world.findPromise id) fun i =>
      -- The reply comes after all callbacks, so it goes on the agenda before they do.
      let (won, m') := (m.push [.reply (.ok (.truth true))]).settlePromise i c
      if won then m' else m.answer (.ok (.truth false))
  | .ask id q => m.withPromise id fun _ p => m.answer (.ok (askPromise p q))
  | .listen id tag script =>
    m.withPromise id fun i p =>
      match p.late? with
      | some c => m.push [.listener i ⟨tag, script⟩ c, .reply (.ok .nothing)]
      | none =>
        { m with world := m.world.modifyPromise i (·.listen ⟨tag, script⟩) }.answer (.ok .nothing)
  | .link id target =>
    m.withPromise id fun i p =>
      m.withFound (m.world.findPromise target) fun j =>
        match p.late? with
        | some c => m.push [.forward i j c, .reply (.ok .nothing)]
        | none => { m with world := m.world.modifyPromise i (·.link j) }.answer (.ok .nothing)
  | .future id as =>
    m.withFound (m.world.findPromise id) fun i =>
      { m with world := m.world.bind as (.future i) }.answer (.ok .nothing)
  | .poll id waker script =>
    m.withFound (m.world.findFuture id) fun i =>
      match m.world.result? i with
      | some c => m.answer (.ok (.completion c))
      | none =>
        { m with world := m.world.modifyPromise i fun p =>
            p.poll (fun a b => a.tag == b.tag) ⟨waker, script⟩ }.answer (.ok .pending)
  | .waitWhile id body =>
    m.withFound (m.world.findPromise id) fun i => m.push [.command body, .await i]
  | .completable id => { m with world := m.world.addCompletable id none }.answer (.ok .nothing)
  | .completableWithPermits id clock units start script =>
    m.withFound (m.world.findClock clock) fun c =>
      let permits := { units, start, release := .scripted id c script }
      { m with world := m.world.addCompletable id (some permits) }.answer (.ok .nothing)
  | .complete id c =>
    m.withFound (m.world.findCompletable id) fun i =>
      let (won, m') := (m.push [.reply (.ok (.truth true))]).settleCompletable i c
      if won then m' else m.answer (.ok (.truth false))
  | .completableStatus id =>
    m.withFound (m.world.findCompletable id) fun i =>
      match m.world.completables[i]? with
      | some k => m.answer (.ok (.tuple [.text k.status.label, .truth k.isDone]))
      | none => m.answer (.error (.missing id))
  | .railPromise rail units now as held =>
    m.withPermits rail units now held fun permits w => w.addPromise as (some permits)
  | .railCompletable rail units now as held =>
    m.withPermits rail units now held fun permits w => w.addCompletable as (some permits)
  | .deadlines id => { m with world := m.world.addDeadlines id }.answer (.ok .nothing)
  | .push id plan deadline =>
    m.withDeadlines id fun i q =>
      m.withFound (m.world.resolveTask plan) fun task =>
        { m with world := m.world.storeDeadlines i (q.push task deadline) }.answer (.ok .nothing)
  | .nextDeadline id =>
    m.withDeadlines id fun _ q => m.answer (.ok (.ofOption .word q.nextDeadline))
  | .deadlinesSize id =>
    m.withDeadlines id fun _ q => m.answer (.ok (.tuple [.number q.size, .truth q.isEmpty]))
  | .clearDeadlines id =>
    m.withDeadlines id fun i q =>
      { m with world := m.world.storeDeadlines i q.clear }.answer (.ok .nothing)
  | .expire id now =>
    m.withDeadlines id fun i q =>
      let (q, due) := q.expire now
      { m with world := m.world.storeDeadlines i q }.push
        (due.map Work.fire ++ [Work.reply (.ok (.number due.length))])
  | .deadlinesDebug id => m.withDeadlines id fun _ q => m.answer (.ok (.text (deadlinesText q)))
  | .service id config start =>
    match TimeoutService.make config with
    | .ok s =>
      match config.threadFault? with
      | some message => m.unwind message
      | none =>
        ({ m with world := m.world.addService id s start }.tell
          [.diagnostic (.serviceStarted config.name)]).push
          [.serve m.world.services.size, .reply (.ok .nothing)]
    | .error e => m.answer (.error (.error e))
  | .schedule id plan timeout now =>
    m.withService id fun i s =>
      m.withFound (m.world.resolveTask plan) fun task =>
        match s.service.schedule task timeout (now.getD s.clock.now) with
        | .ok t =>
          { m with world := m.world.storeService i (probe t s.clock.now) }.push [.serve i,
            .replyPending i]
        | .error e => m.answer (.error (.error e))
  | .setServiceClock id now =>
    m.withService id fun i s =>
      let m := { m with world := m.world.setServiceClock i ⟨now⟩ }
      if s.service.accepting then
        { m with world := m.world.storeService i (probe s.service now) }.push [.serve i,
          .replyPending i]
      else m.answer (.error (.error .timeoutServiceStopped))
  | .serviceParts id =>
    m.withService id fun _ s =>
      m.answer (.ok (.serviceParts s.service.name s.service.pending s.service.accepting
        (.ofNanos s.service.maxTimeout)))
  | .serviceDebug id => m.withService id fun _ s => m.answer (.ok (.text (serviceText s.service)))
  | .stopService id =>
    m.withService id fun i s =>
      -- A worker that has ended receives no message, and there is nothing left to stop.
      let t := s.service.refuse
      -- A call that would wait for the task that is being fired goes on at once here. Its lock is
      -- noted.
      let own := m.thread? == some i
      { m with
        world := (m.world.storeService i ((t.send .stop).getD t)).takeHandle i own
          (m.isFiring i) }.push
        [.serve i, .stopped i s.service.accepting]
  | .killService id plan timeout =>
    m.withService id fun i s =>
      m.withFound (m.world.resolveTask plan) fun task =>
        -- A service that accepts nothing has no worker left that could break.
        match s.service.schedule task timeout s.clock.now with
        | .ok t =>
          { m with world := m.world.storeService i t.crash }.answer (.ok (.accepting false))
        | .error _ => m.answer (.ok (.accepting false))

/-- Stops the timeout services that have lost their name to another object. One that loses it to a
task that it fires itself goes on until the command that waits for it has its reply. -/
def retire (m : Machine O) : Machine O :=
  m.world.services.size.fold (fun i _ m =>
    match m.world.services[i]? with
    | some s =>
      if s.service.accepting && m.world.bench.lookup s.id != some (.service i) &&
        !m.isAwaited i then
        { m with world := m.world.storeService i s.service.exit }.tell
          [.diagnostic (.serviceStopped s.service.name)]
      else m
    | none => m) m

/-! ## Callbacks -/

/-- Returns permits with an outcome. -/
def returnPermits (m : Machine O) (p : Permits (Release O)) (outcome : O) : Machine O :=
  let now := m.world.releaseTime p.release
  match p.release with
  | .rail i => m.collect (m.world.bench.releaseTo i p.units outcome p.start now)
  | .scripted id _ script =>
    { m with world := m.world.note [.permits id p.units outcome p.start now] }.push [.script script]

/-- Fires a task. -/
def fireTask (m : Machine O) : Task O → Machine O
  | .promise i => (m.settlePromise i .timeout).2
  | .completable i => (m.settleCompletable i .timeout).2
  | .tagged tag script => { m with world := m.world.note [.timeout tag] }.push [.script script]
  | .probe => m

/-- Lets the worker of a timeout service do its next step. A worker that is in the middle of firing
a task, and one that waits, does none. -/
def serve (m : Machine O) (i : Nat) : Machine O :=
  if m.isFiring i then m
  else
    match m.world.services[i]? with
    | none => m
    | some p =>
      let s := p.service
      let goOn (t : TimeoutService (Task O)) :=
        { m with world := m.world.storeService i t }.push [.serve i]
      match s.worker with
      | .exited => m
      | .waking => goOn (s.wake p.clock.now)
      | .firing _ =>
        match s.fireNext? with
        | some (task, t) =>
          { m with world := m.world.storeService i t }.push [.fire task, .fired i, .serve i]
        | none =>
          -- All that was due has been fired: the next message, or the next deadline.
          match s.receive? with
          | some t => goOn t
          | none => if s.isDue p.clock.now then goOn (s.wake p.clock.now) else m

/-- Does what the first entry of the agenda says; it has been taken off the agenda. -/
def perform (m : Machine O) : Work O → Machine O
  | .command c => (m.start c).retire
  | .report name => { m with world := m.world.note [.action name m.last] }
  | .script .done => m
  | .script (.act name c rest) => m.push [.command c, .report name, .script rest]
  | .release _ permits outcome => m.returnPermits permits outcome
  | .wakeAll i =>
    match m.world.promises[i]? with
    | some p =>
      let (q, wakers) := p.takeWakers
      { m with world := m.world.storePromise i q }.push (wakers.map (Work.wake i))
    | none => m
  | .wake _ k => { m with world := m.world.note [.wake k.tag] }.push [.script k.script]
  | .drain i =>
    match m.world.promises[i]? with
    | some p =>
      let (q, listeners, links) := p.takeCallbacks
      let m := { m with world := m.world.storePromise i q }
      match p.result with
      | some c =>
        -- Callbacks registered by those that run now are found by the next round.
        if q.drained then m
        else
          m.push (listeners.map (Work.listener i · c) ++ links.map (Work.forward i · c)
            ++ [Work.drain i])
      | none => m
    | none => m
  | .listener _ l c => { m with world := m.world.note [.listener l.tag c] }.push [.script l.script]
  | .forward _ j c => (m.settlePromise j c).2
  | .fire task => m.fireTask task
  | .fired i =>
    match m.world.services[i]? with
    | some p => { m with world := m.world.storeService i p.service.finishFire }
    | none => m
  | .serve i => m.serve i
  | .reply r => m.answer r
  | .replyPending i =>
    (m.answer (.ok (.pendingTasks ((m.world.services[i]?.map (·.service.pending)).getD 0)))).retire
  | .stopped i wasAccepting =>
    let name := (m.world.services[i]?.map (·.service.name)).getD ""
    (if wasAccepting then m.tell [.diagnostic (.serviceStopped name)] else m).answer (.ok .nothing)
  -- If the promise is still pending, the waiter gives it up.
  | .await i => ((m.push [.waited i m.last]).settlePromise i .cancelled).2
  | .waited i reply =>
    match m.world.result? i with
    | some c => m.answer (.ok (.waited reply c))
    | none => m

/-- Does the first entry of the agenda, if there is one. -/
def step (m : Machine O) : Machine O :=
  match m.agenda with
  | [] => m
  | work :: rest => perform { m with agenda := rest } work

/-- A number of steps. -/
def steps : Nat → Machine O → Machine O
  | 0, m => m
  | n + 1, m =>
    match m.agenda with
    | [] => m
    | _ :: _ => steps n m.step

end Machine

/-- The steps that an entry of the agenda brings about. -/
def Work.weight {O : Type} : Work O → Nat
  | command c => c.weight
  | script s => s.weight + 1
  | release _ p _ => p.release.weight
  | wake _ k => k.weight
  | listener _ l _ => l.weight
  | fire t => t.weight
  | await _ => 2
  | _ => 1

namespace Machine

variable {O : Type} [Outcome O]

/-- A bound on the steps until the agenda is empty. -/
def weight (m : Machine O) : Nat := (m.agenda.map Work.weight).sum + m.world.weight

/-- Does everything on the agenda. -/
def run (m : Machine O) : Machine O := steps m.weight m

end Machine

/-- Carries out a command with all its callbacks. -/
def World.perform {O : Type} [Outcome O] (w : World O) (c : Command O) : Reply O × World O :=
  let m := ({ world := w, agenda := [.command c] } : Machine O).run
  (m.last, m.world)

/-- What a command replied, and what was left in the log meanwhile. -/
structure Report (O : Type) where
  reply : Reply O
  log : List (Entry O)
  /-- The command has come to a deadlock, and its reply never comes. -/
  stuck : Bool

/-- Carries out the commands of a scenario one after another. -/
def World.runAll {O : Type} [Outcome O] : World O → List (Command O) → List (Report O)
  | _, [] => []
  | w, c :: rest =>
    let (reply, next) := World.perform { w with log := [] } c
    ⟨reply, next.log, next.isStuck⟩ :: World.runAll next rest

end Admission.Scenario
