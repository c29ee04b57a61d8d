import Admission.Proofs.Scenario.Effects

/-!
# Runs without a panic

A run goes from machine to machine, by steps that do not panic, and by commands that are given from
outside whenever the agenda is empty. It keeps the machines that it passes through, and what a
machine is about to do can be read off its agenda: attempts, calls of release functions, and
callbacks.

## Main definitions

* `Machine.attempt?`, `Machine.releaseCall?`, `Machine.callback?`: what a machine is about to do
* `Next`, `Run`: what comes next, and runs with the machines that they pass through
* `Returns`: a call that has returned, or is still going on
* `Machine.Tidy`: only holders that were completed have callbacks on the agenda

## Main results

* `step_of_wins`: what an attempt that wins does
* `Next.standing`, `Next.agenda`: what leaves a holder alone
* `Run.tidy`: every run from an empty agenda is tidy
* `Run.returns`, `Run.replies`: a call returns once all is done that it started, and an attempt
  replies whether it won
* `run_trace`, `exists_run_perform`: the steps of the machine are a run unless they panic
-/

namespace Admission.Scenario

variable {O : Type} [Outcome O]

/-! ## What a step is about to do -/

/-- An attempt to complete a holder, and whether it wins. -/
structure Attempt (O : Type) where
  holder : Holder
  completion : Completion O
  won : Bool

/-- A call of a release function: permits come back with an outcome, at the reading of a clock. -/
structure ReleaseCall (O : Type) where
  permits : Permits (Release O)
  outcome : O
  now : UInt64

namespace Machine

/-- The attempt that the next step makes. -/
def attempt? (m : Machine O) : Option (Attempt O) :=
  (m.agenda.head?.bind (·.target? m.world)).map fun (h, c) => ⟨h, c, (m.settle h c).1⟩

/-- The call of a release function that the next step makes, and the holder that it is made for. -/
def releaseCall? (m : Machine O) : Option (Holder × ReleaseCall O) :=
  match m.agenda with
  | .release h p outcome :: _ => some (h, ⟨p, outcome, m.world.releaseTime p.release⟩)
  | _ => none

/-- The holder whose waker, listener or link the next step runs. -/
def callback? (m : Machine O) : Option Holder :=
  match m.agenda with
  | .wake i _ :: _ => some (.promise i)
  | .listener i _ _ :: _ => some (.promise i)
  | .forward i _ _ :: _ => some (.promise i)
  | _ => none

/-- Whether the next step ends in a panic. -/
def panics (m : Machine O) : Bool := m.agenda.head?.any (·.panics m.world)

end Machine

/-- The attempts on a holder, the earliest first. -/
def attempts (h : Holder) (visited : List (Machine O)) : List (Attempt O) :=
  visited.filterMap fun m => m.attempt?.filter (·.holder = h)

/-- The calls of the release function of a holder, the earliest first. -/
def releaseCalls (h : Holder) (visited : List (Machine O)) : List (ReleaseCall O) :=
  visited.filterMap fun m => (m.releaseCall?.filter (·.1 = h)).map (·.2)

/-- What comes next: a step that does not panic, or a command when the agenda is empty. A command is
given with a log and a reply of its own. -/
inductive Next (m : Machine O) : Machine O → Prop
  | step (ha : m.agenda ≠ []) (hp : m.panics = false) : Next m m.step
  | command (ha : m.agenda = []) (c : Command O) (log : List (Entry O)) (last : Reply O) :
      Next m { world := { m.world with log }, agenda := [.command c], last }

/-- A run from a machine to another, with the machines that it passes through, the first
included. -/
inductive Run : Machine O → List (Machine O) → Machine O → Prop
  | refl (m : Machine O) : Run m [] m
  | next {m k n : Machine O} {visited : List (Machine O)} (hk : Next m k) (hrun : Run k visited n) :
      Run m (m :: visited) n

/-! ## Steps -/

section Steps

variable {m : Machine O} {work : Work O} {rest : List (Work O)}

/-- The effect of a step that does not panic. -/
theorem step_effect (hm : m.agenda = work :: rest) (hp : m.panics = false) :
    Effect { m with agenda := rest } (Wins m.world (work.target? m.world)) work.owner? m.step := by
  have hwork : work.panics m.world = false := by
    rw [Machine.panics, hm] at hp
    exact hp
  have hstep : m.step = ({ m with agenda := rest } : Machine O).perform work := by
    rw [Machine.step, hm]
  rw [hstep]
  exact effect_perform _ work hwork

theorem attempt?_eq (hm : m.agenda = work :: rest) :
    m.attempt? = (work.target? m.world).map fun (h, c) => ⟨h, c, (m.settle h c).1⟩ := by
  rw [Machine.attempt?, hm]
  rfl

theorem step_of_reply {reply : Reply O} (hm : m.agenda = .reply reply :: rest) :
    m.step = ({ m with agenda := rest } : Machine O).answer reply := by
  rw [Machine.step, hm]
  rfl

/-- A command that is an attempt replies after all that follows if it wins, and at once if not. -/
theorem start_attempt {cmd : Command O} {h : Holder} {c : Completion O}
    (ht : cmd.target? m.world = some (h, c)) :
    m.start cmd =
      let (won, n) := (m.push [.reply (.ok (.truth true))]).settle h c
      if won then n else m.answer (.ok (.truth false)) := by
  cases cmd with
  | settle id d =>
    rw [Command.target?] at ht
    cases hfound : m.world.findPromise id with
    | error e =>
      rw [hfound] at ht
      cases ht
    | ok i =>
      rw [hfound] at ht
      cases ht
      rw [Machine.start, hfound]
      rfl
  | complete id d =>
    rw [Command.target?] at ht
    cases hfound : m.world.findCompletable id with
    | error e =>
      rw [hfound] at ht
      cases ht
    | ok i =>
      rw [hfound] at ht
      cases ht
      rw [Machine.start, hfound]
      rfl
  | _ => cases ht

/-- An attempt by a command that loses replies so and does nothing else. -/
theorem step_of_command_loses {cmd : Command O} {h : Holder} {c : Completion O}
    (hm : m.agenda = .command cmd :: rest) (ht : cmd.target? m.world = some (h, c))
    (hp : ¬ m.world.IsPending h) : m.step.agenda = rest ∧ m.step.last = .ok (.truth false) := by
  have hstart := start_attempt (m := { m with agenda := rest }) ht
  have hpush : ¬ (({ m with agenda := rest } : Machine O).push
      [.reply (.ok (.truth true))]).world.IsPending h := hp
  rw [Machine.settle_of_not_isPending hpush] at hstart
  rw [Machine.step, hm]
  change (Machine.start _ cmd).retire.agenda = rest ∧ (Machine.start _ cmd).retire.last = _
  rw [hstart, Machine.agenda_retire, Machine.last_retire]
  exact ⟨rfl, rfl⟩

/-- An attempt by a command that wins replies so after all that follows. -/
theorem step_of_command_wins {cmd : Command O} {h : Holder} {c : Completion O}
    {permits : Option (Permits (Release O))} (hm : m.agenda = .command cmd :: rest)
    (ht : cmd.target? m.world = some (h, c)) (hp : m.world.standing? h = some (.pending permits)) :
    m.step.world.standing? h = some (h.settled permits c) ∧
      m.step.agenda = h.followUp permits c ++ .reply (.ok (.truth true)) :: rest := by
  have hstart := start_attempt (m := { m with agenda := rest }) ht
  have hpush : (({ m with agenda := rest } : Machine O).push
      [.reply (.ok (.truth true))]).world.standing? h = some (.pending permits) := hp
  obtain ⟨w, hw, -, hstanding⟩ := Machine.settle_of_isPending hpush c
  rw [hw] at hstart
  have hstep : m.step = (Machine.start { m with agenda := rest } cmd).retire := by
    rw [Machine.step, hm]
    rfl
  rw [hstep, hstart]
  dsimp only
  rw [if_pos rfl, Machine.agenda_retire,
    World.standing?_congr Machine.promises_retire Machine.completables_retire]
  exact ⟨(hstanding h).trans (if_pos rfl), rfl⟩

/-- **An attempt that wins** keeps the completion, and the first thing that follows is the return of
the permits. -/
theorem step_of_wins {h : Holder} {c : Completion O} {permits : Option (Permits (Release O))}
    (hm : m.agenda = work :: rest) (ht : work.target? m.world = some (h, c))
    (hp : m.world.standing? h = some (.pending permits)) :
    m.step.world.standing? h = some (h.settled permits c) ∧
      ∃ reply, m.step.agenda = h.followUp permits c ++ reply ++ rest ∧
        ∀ work ∈ reply, work.owner? = none := by
  have hstep : m.step = ({ m with agenda := rest } : Machine O).perform work := by
    rw [Machine.step, hm]
  -- All but commands attempt it at once, some with an entry of their own to follow.
  have hsettle {n : Machine O} (reply : List (Work O)) (hn : n.world = m.world)
      (hagenda : n.agenda = reply ++ rest) (hreply : ∀ work ∈ reply, work.owner? = none)
      (hperform : ({ m with agenda := rest } : Machine O).perform work = (n.settle h c).2) :
      m.step.world.standing? h = some (h.settled permits c) ∧
        ∃ reply, m.step.agenda = h.followUp permits c ++ reply ++ rest ∧
          ∀ work ∈ reply, work.owner? = none := by
    have hpn : n.world.standing? h = some (.pending permits) := hn ▸ hp
    obtain ⟨w, hw, -, hstanding⟩ := Machine.settle_of_isPending hpn c
    rw [hstep, hperform, hw]
    refine ⟨(hstanding h).trans (if_pos rfl), reply, ?_, hreply⟩
    rw [List.append_assoc, ← hagenda]
    rfl
  have hown : ∀ work ∈ ([] : List (Work O)), work.owner? = none := by simp
  cases work with
  | command cmd =>
    obtain ⟨hstanding, hagenda⟩ := step_of_command_wins hm ht hp
    refine ⟨hstanding, [.reply (.ok (.truth true))], ?_, by simp [Work.owner?]⟩
    rw [hagenda, List.append_assoc]
    rfl
  | forward i j d =>
    cases ht
    exact hsettle (n := { m with agenda := rest }) [] rfl rfl hown rfl
  | fire task =>
    cases task with
    | promise i =>
      cases ht
      exact hsettle (n := { m with agenda := rest }) [] rfl rfl hown rfl
    | completable i =>
      cases ht
      exact hsettle (n := { m with agenda := rest }) [] rfl rfl hown rfl
    | tagged tag script => cases ht
    | probe => cases ht
  | await i =>
    cases ht
    refine hsettle (n := ({ m with agenda := rest } : Machine O).push [.waited i m.last])
      [.waited i m.last] rfl rfl ?_ rfl
    simp [Work.owner?]
  | _ => cases ht

end Steps

/-! ## What comes next -/

theorem agenda_of_attempt? {m : Machine O} {a : Attempt O} (ha : m.attempt? = some a) :
    ∃ work rest, m.agenda = work :: rest ∧ work.target? m.world = some (a.holder, a.completion) ∧
      a.won = (m.settle a.holder a.completion).1 := by
  cases hm : m.agenda with
  | nil =>
    rw [Machine.attempt?, hm] at ha
    cases ha
  | cons work rest =>
    rw [attempt?_eq hm, Option.map_eq_some_iff] at ha
    obtain ⟨⟨h, c⟩, ht, rfl⟩ := ha
    exact ⟨work, rest, rfl, ht, rfl⟩

/-- An attempt wins if and only if its holder is pending. -/
theorem won_of_attempt? {m : Machine O} {a : Attempt O} (ha : m.attempt? = some a) :
    a.won = true ↔ m.world.IsPending a.holder := by
  obtain ⟨work, rest, -, -, hwon⟩ := agenda_of_attempt? ha
  constructor
  · intro hw
    by_cases hp : m.world.IsPending a.holder
    · exact hp
    · rw [Machine.settle_of_not_isPending hp] at hwon
      rw [hwon] at hw
      cases hw
  · rintro ⟨permits, hp⟩
    obtain ⟨w, hw, -⟩ := Machine.settle_of_isPending hp a.completion
    rw [hwon, hw]

theorem attempt?_of_wins {m : Machine O} {work : Work O} {rest : List (Work O)} {h : Holder}
    (hm : m.agenda = work :: rest) (hw : Wins m.world (work.target? m.world) h) :
    ∃ c, m.attempt? = some ⟨h, c, true⟩ := by
  obtain ⟨⟨permits, hp⟩, c, ht⟩ := hw
  obtain ⟨w, hw, -⟩ := Machine.settle_of_isPending hp c
  refine ⟨c, ?_⟩
  rw [attempt?_eq hm, ht, Option.map_some]
  dsimp only
  rw [hw]

namespace Next

variable {m k : Machine O} {h : Holder}

/-- A holder stands as it stood unless an attempt on it wins. -/
theorem standing (hk : Next m k) {s : Standing O} (hs : m.world.standing? h = some s)
    (ha : ∀ c, m.attempt? ≠ some ⟨h, c, true⟩) : k.world.standing? h = some s := by
  cases hk with
  | command hm c log last => exact (World.standing?_congr rfl rfl h).trans hs
  | step hm hp =>
    obtain ⟨work, rest, hm⟩ := List.exists_cons_of_ne_nil hm
    refine (step_effect hm hp).standing h s hs fun hw => ?_
    obtain ⟨c, hc⟩ := attempt?_of_wins hm hw
    exact ha c hc

/-- A callback on the agenda was there before, unless its holder is completed now, has run a
callback now, or was completed before. -/
theorem agenda (hk : Next m k) {work : Work O} (hwork : work ∈ k.agenda)
    (ho : work.owner? = some h) :
    (∃ c, m.attempt? = some ⟨h, c, true⟩) ∨ work ∈ m.agenda.tail ∨
      (work.isRelease = false ∧
        ((∃ parent ∈ m.agenda, parent.owner? = some h) ∨ m.world.IsSettled h)) := by
  cases hk with
  | command hm c log last =>
    obtain rfl := List.mem_singleton.mp hwork
    cases ho
  | step hm hp =>
    obtain ⟨first, rest, hm⟩ := List.exists_cons_of_ne_nil hm
    -- An entry of the new agenda came with the step, or stood behind the first one.
    obtain ⟨new, hnew, hsprings⟩ := (step_effect hm hp).agenda
    rw [hnew] at hwork
    rw [hm, List.tail_cons]
    rcases List.mem_append.mp hwork with hwork | hwork
    · rcases hsprings work hwork h ho with hw | ⟨hrelease, hparent⟩
      · exact Or.inl (attempt?_of_wins hm hw)
      · refine Or.inr (Or.inr ⟨hrelease, ?_⟩)
        rcases hparent with hparent | hsettled
        · exact Or.inl ⟨first, List.mem_cons_self, hparent⟩
        · exact Or.inr hsettled
    · exact Or.inr (Or.inl hwork)

/-- The machine after an attempt that wins. -/
theorem of_won (hk : Next m k) {c : Completion O} {permits : Option (Permits (Release O))}
    (ha : m.attempt? = some ⟨h, c, true⟩) (hs : m.world.standing? h = some (.pending permits)) :
    k.world.standing? h = some (h.settled permits c) ∧
      ∃ reply, k.agenda = h.followUp permits c ++ reply ++ m.agenda.tail ∧
        ∀ work ∈ reply, work.owner? = none := by
  obtain ⟨work, rest, hm, ht, -⟩ := agenda_of_attempt? ha
  cases hk with
  | command hn c log last =>
    rw [hm] at hn
    cases hn
  | step _ _ =>
    obtain ⟨hstanding, reply, hagenda, hreply⟩ := step_of_wins hm ht hs
    rw [hm, List.tail_cons]
    exact ⟨hstanding, reply, hagenda, hreply⟩

end Next

/-! ## Callbacks on the agenda -/

/-- Every callback on the agenda is there for a holder that was completed. -/
def Machine.Tidy (m : Machine O) : Prop :=
  ∀ work ∈ m.agenda, ∀ h, work.owner? = some h → m.world.IsSettled h

/-- What was completed stays as it is. -/
theorem Next.standing_of_settled {m k : Machine O} (hk : Next m k) {h : Holder} {s : Standing O}
    (hs : m.world.standing? h = some s) (hne : s.status ≠ .pending) :
    k.world.standing? h = some s := by
  refine hk.standing hs fun c hc => ?_
  have hp : m.world.IsPending h := (won_of_attempt? hc).mp rfl
  exact hp.not_isSettled ⟨s, hs, hne⟩

theorem Next.isSettled {m k : Machine O} (hk : Next m k) {h : Holder} (hm : m.world.IsSettled h) :
    k.world.IsSettled h := by
  obtain ⟨s, hs, hne⟩ := hm
  exact ⟨s, hk.standing_of_settled hs hne, hne⟩

theorem Run.isSettled {m n : Machine O} {visited : List (Machine O)} (hrun : Run m visited n)
    {h : Holder} (hm : m.world.IsSettled h) : n.world.IsSettled h := by
  induction hrun with
  | refl m => exact hm
  | next hk hrun ih => exact ih (hk.isSettled hm)

/-- An attempt that wins completes its holder. -/
theorem Next.isSettled_of_won {m k : Machine O} (hk : Next m k) {h : Holder} {c : Completion O}
    (hwon : m.attempt? = some ⟨h, c, true⟩) : k.world.IsSettled h := by
  obtain ⟨permits, hs⟩ := (won_of_attempt? hwon).mp rfl
  exact ⟨_, (hk.of_won hwon hs).1, status_settled_ne h permits c⟩

/-- What an attempt has completed stays so. -/
theorem Run.isSettled_of_won {m n : Machine O} {visited : List (Machine O)}
    (hrun : Run m (m :: visited) n) {h : Holder} {c : Completion O}
    (hwon : m.attempt? = some ⟨h, c, true⟩) : n.world.IsSettled h := by
  cases hrun with
  | next hk hrun => exact hrun.isSettled (hk.isSettled_of_won hwon)

/-- With an empty agenda there are no callbacks. -/
theorem Machine.tidy_of_agenda_eq_nil {m : Machine O} (hm : m.agenda = []) : m.Tidy := by
  unfold Machine.Tidy
  rw [hm]
  exact nofun

theorem Next.tidy {m k : Machine O} (hk : Next m k) (hm : m.Tidy) : k.Tidy := by
  intro work hwork h ho
  -- Wherever a callback comes from, its holder was completed, at the latest by this step.
  rcases hk.agenda hwork ho with ⟨c, hc⟩ | htail | ⟨-, ⟨parent, hparent, hpo⟩ | hsettled⟩
  · exact hk.isSettled_of_won hc
  · exact hk.isSettled (hm work (List.mem_of_mem_tail htail) h ho)
  · exact hk.isSettled (hm parent hparent h hpo)
  · exact hk.isSettled hsettled

/-- **Every run from an empty agenda is tidy.** -/
theorem Run.tidy {m n : Machine O} {visited : List (Machine O)} (hrun : Run m visited n)
    (hm : m.Tidy) : n.Tidy := by
  induction hrun with
  | refl m => exact hm
  | next hk hrun ih => exact ih (hk.tidy hm)

/-! ## Calls -/

/-- A call that replies so and goes on with the rest of the agenda: each of the machines is in the
middle of the call, up to the one where it returns, if there is one. -/
def Returns (rest : List (Work O)) (reply : Reply O) : List (Machine O) → Prop
  | [] => True
  | m :: later =>
    (m.agenda = rest ∧ m.last = reply) ∨
      ((∃ work more, m.agenda = work :: more ++ rest) ∧ Returns rest reply later)

theorem Run.exists_cons {m n : Machine O} {visited : List (Machine O)} (hrun : Run m visited n) :
    ∃ later, visited ++ [n] = m :: later := by
  cases hrun with
  | refl => exact ⟨[], rfl⟩
  | next hk hrun => exact ⟨_, rfl⟩

/-- **A call returns** once all is done that it started. -/
theorem Run.returns {m n : Machine O} {visited : List (Machine O)} (hrun : Run m visited n)
    {started rest : List (Work O)} {reply : Reply O}
    (hm : m.agenda = started ++ .reply reply :: rest) : Returns rest reply (visited ++ [n]) := by
  have hwithin {m : Machine O} {started : List (Work O)}
      (hm : m.agenda = started ++ .reply reply :: rest) :
      ∃ work more, m.agenda = work :: more ++ rest := by
    cases started with
    | nil => exact ⟨.reply reply, [], hm⟩
    | cons work more => exact ⟨work, more ++ [.reply reply], by rw [hm]; simp⟩
  induction hrun generalizing started with
  | refl m => exact Or.inr ⟨hwithin hm, trivial⟩
  | next hk hrun ih =>
    refine Or.inr ⟨hwithin hm, ?_⟩
    change Returns rest reply (_ ++ [_])
    cases hk with
    -- Nothing is commanded from outside while the call goes on.
    | command ha =>
      rw [ha] at hm
      simp at hm
    | step ha hp =>
      cases started with
      | nil =>
        obtain ⟨later, hlater⟩ := hrun.exists_cons
        rw [hlater, step_of_reply hm]
        exact Or.inl ⟨rfl, rfl⟩
      | cons work more =>
        -- The step only replaces the first entry, so the reply is still to come.
        obtain ⟨new, hnew, -⟩ := (step_effect hm hp).agenda
        refine @ih (new ++ more) ?_
        rw [hnew, List.append_assoc]
        rfl

theorem Run.append {m k n : Machine O} {before after : List (Machine O)} (hbefore : Run m before k)
    (hafter : Run k after n) : Run m (before ++ after) n := by
  induction hbefore with
  | refl m => exact hafter
  | next hk hrun ih => exact .next hk (ih hafter)

/-- A run can be cut at any of its machines. -/
theorem Run.split {m n k : Machine O} {before after : List (Machine O)}
    (hrun : Run m (before ++ k :: after) n) :
    Run m before k ∧ ∃ next, Next k next ∧ Run next after n := by
  induction before generalizing m with
  | nil =>
    cases hrun with
    | next hk hrun => exact ⟨.refl _, _, hk, hrun⟩
  | cons l before ih =>
    cases hrun with
    | next hk hrun =>
      obtain ⟨hbefore, hafter⟩ := ih hrun
      exact ⟨.next hk hbefore, hafter⟩

/-- **An attempt that is a command replies whether it won.** -/
theorem Run.replies {m n k : Machine O} {before after : List (Machine O)}
    (hrun : Run m (before ++ k :: after) n) {c : Command O} {rest : List (Work O)} {a : Attempt O}
    (hk : k.agenda = .command c :: rest) (ha : k.attempt? = some a) :
    Returns rest (.ok (.truth a.won)) (after ++ [n]) := by
  obtain ⟨-, next, hnext, hrun⟩ := hrun.split
  obtain ⟨work, rest', hk', ht, -⟩ := agenda_of_attempt? ha
  rw [hk] at hk'
  cases hk'
  cases hnext with
  | command hn =>
    rw [hk] at hn
    cases hn
  | step _ _ =>
    by_cases hp : k.world.IsPending a.holder
    · rw [(won_of_attempt? ha).mpr hp]
      obtain ⟨permits, hp⟩ := hp
      exact hrun.returns (step_of_command_wins hk ht hp).2
    · have hlost : a.won = false := Bool.eq_false_iff.mpr fun hw => hp ((won_of_attempt? ha).mp hw)
      obtain ⟨later, hlater⟩ := hrun.exists_cons
      rw [hlater, hlost]
      exact Or.inl (step_of_command_loses hk ht hp)

/-! ## The runs of the machine itself -/

/-- The machines that a number of steps pass through. -/
def Machine.trace : Nat → Machine O → List (Machine O)
  | 0, _ => []
  | n + 1, m =>
    match m.agenda with
    | [] => []
    | _ :: _ => m :: trace n m.step

/-- **The steps of the machine are a run** unless one of them panics. -/
theorem run_trace {n : Nat} {m : Machine O} (hp : ∀ k ∈ m.trace n, k.panics = false) :
    Run m (m.trace n) (Machine.steps n m) := by
  induction n generalizing m with
  | zero => exact .refl m
  | succ n ih =>
    cases hm : m.agenda with
    | nil =>
      rw [Machine.steps_of_agenda_eq_nil hm, Machine.trace, hm]
      exact .refl m
    | cons work rest =>
      have ha : m.agenda ≠ [] := hm ▸ List.cons_ne_nil work rest
      have htrace : m.trace (n + 1) = m :: m.step.trace n := by rw [Machine.trace, hm]
      rw [htrace] at hp ⊢
      rw [Machine.steps_succ ha]
      obtain ⟨hfirst, hlater⟩ := List.forall_mem_cons.mp hp
      exact .next (.step ha hfirst) (ih hlater)

/-- **Every command comes to its end by a run** unless it panics on the way. -/
theorem exists_run_perform {w : World O} {c : Command O}
    (hp : ∀ n, (Machine.steps n { world := w, agenda := [.command c] }).panics = false) :
    ∃ visited n, Run { world := w, agenda := [.command c] } visited n ∧ n.agenda = [] ∧
      w.perform c = (n.last, n.world) := by
  have hmem (n : Nat) (m : Machine O) (k : Machine O) (hk : k ∈ m.trace n) :
      ∃ i, k = Machine.steps i m := by
    induction n generalizing m with
    | zero => cases hk
    | succ n ih =>
      cases hm : m.agenda with
      | nil =>
        rw [Machine.trace, hm] at hk
        cases hk
      | cons work rest =>
        rw [Machine.trace, hm] at hk
        rcases List.mem_cons.mp hk with rfl | hk
        · exact ⟨0, rfl⟩
        · obtain ⟨i, rfl⟩ := ih m.step hk
          have ha : m.agenda ≠ [] := hm ▸ List.cons_ne_nil work rest
          exact ⟨i + 1, (Machine.steps_succ ha i).symm⟩
  refine ⟨_, _, run_trace (n := Machine.weight { world := w, agenda := [.command c] }) ?_, ?_, rfl⟩
  · intro k hk
    obtain ⟨i, rfl⟩ := hmem _ _ k hk
    exact hp i
  · exact Machine.agenda_run

end Admission.Scenario
