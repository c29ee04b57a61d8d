import Admission.Proofs.Scenario.Runs

/-!
# Holders are completed once

Completions of one holder can be attempted from outside, and from inside all that a completion
starts: the release function, wakers, listeners, links, and whatever these start in turn. The first
attempt that is made wins. All others lose, even those that are made before the first one has
returned, since the completion is kept before anything is started. The release function is called at
once by the attempt that wins, so before any waker, listener or link, and never again.

A holder goes through three phases. While it is pending, nothing on the agenda is about it. After
the attempt that wins, the agenda starts with the return of its permits. Once they are returned,
nothing on the agenda returns them again.

## Main definitions

* `Machine.Due`, `Machine.Over`: the second phase and the third one
* `Course`: what a run does to a holder that is pending when the run starts
* `Life`: a run from where a holder is pending
* `conduct`: the replies to attempts, the status at the end and the calls of the release function

## Main results

* `course_of_isPending`: every run from a tidy machine takes such a course
* `Course.conduct_eq`: the conduct depends on the completions only
* `settled_once`: holders are completed once, and all of them alike
-/

namespace Admission.Scenario

variable {O : Type} [Outcome O]

/-! ## What a machine is about to do to a holder -/

section Lists

variable {m : Machine O} {h : Holder} {visited : List (Machine O)}

theorem mem_attempts {a : Attempt O} :
    a ∈ attempts h visited ↔ ∃ m ∈ visited, m.attempt? = some a ∧ a.holder = h := by
  simp [attempts, Option.filter_eq_some_iff]

theorem attempts_cons_of_attempt? {a : Attempt O} (ha : m.attempt? = some a) (hh : a.holder = h) :
    attempts h (m :: visited) = a :: attempts h visited := by
  have hsome : m.attempt?.filter (·.holder = h) = some a := by
    rw [ha]
    simp [hh]
  rw [attempts, List.filterMap_cons, hsome]
  rfl

theorem attempts_cons_of_forall_ne (ha : ∀ a, m.attempt? = some a → a.holder ≠ h) :
    attempts h (m :: visited) = attempts h visited := by
  have hnone : m.attempt?.filter (·.holder = h) = none := by
    rw [Option.filter_eq_none_iff]
    simpa using ha
  rw [attempts, List.filterMap_cons, hnone]
  rfl

theorem releaseCalls_cons_of_releaseCall? {call : ReleaseCall O}
    (hc : m.releaseCall? = some (h, call)) :
    releaseCalls h (m :: visited) = call :: releaseCalls h visited := by
  simp [releaseCalls, hc]

theorem releaseCalls_cons_of_forall_ne (hc : ∀ call, m.releaseCall? ≠ some (h, call)) :
    releaseCalls h (m :: visited) = releaseCalls h visited := by
  have hnone : m.releaseCall?.filter (·.1 = h) = none := by
    rw [Option.filter_eq_none_iff]
    rintro ⟨k, call⟩ hk
    have hne : k ≠ h := by
      rintro rfl
      exact hc call hk
    simpa using hne
  rw [releaseCalls, List.filterMap_cons, hnone]
  rfl

end Lists

namespace Machine

/-- Neither the release function of a holder nor a callback of it is about to be called. -/
def Quiet (m : Machine O) (h : Holder) : Prop :=
  (∀ call, m.releaseCall? ≠ some (h, call)) ∧ m.callback? ≠ some h

variable {m : Machine O} {h : Holder}

theorem exists_of_releaseCall? {call : ReleaseCall O} (hc : m.releaseCall? = some (h, call)) :
    ∃ work rest, m.agenda = work :: rest ∧ work.owner? = some h ∧ work.isRelease = true := by
  unfold releaseCall? at hc
  split at hc
  · rename_i hm
    cases hc
    exact ⟨_, _, hm, rfl, rfl⟩
  · cases hc

theorem exists_of_callback? (hc : m.callback? = some h) :
    ∃ work rest, m.agenda = work :: rest ∧ work.owner? = some h := by
  unfold callback? at hc
  split at hc
  · rename_i hm
    exact ⟨_, _, hm, hc⟩
  · rename_i hm
    exact ⟨_, _, hm, hc⟩
  · rename_i hm
    exact ⟨_, _, hm, hc⟩
  · cases hc

/-! ## The phases of a holder -/

/-- While a holder is pending, nothing is about to be called for it. -/
theorem quiet_of_isPending (hm : m.Tidy) (hp : m.world.IsPending h) : m.Quiet h := by
  constructor
  · intro call hc
    obtain ⟨work, rest, hagenda, ho, -⟩ := exists_of_releaseCall? hc
    exact hp.not_isSettled (hm work (hagenda ▸ List.mem_cons_self) h ho)
  · intro hc
    obtain ⟨work, rest, hagenda, ho⟩ := exists_of_callback? hc
    exact hp.not_isSettled (hm work (hagenda ▸ List.mem_cons_self) h ho)

/-- A holder was completed just now, and what follows is still to be done. -/
structure Due (m : Machine O) (h : Holder) (permits : Option (Permits (Release O)))
    (c : Completion O) :
    Prop where
  standing : m.world.standing? h = some (h.settled permits c)
  agenda : ∃ tail, m.agenda = h.followUp permits c ++ tail ∧ ∀ work ∈ tail, work.owner? ≠ some h

/-- A holder was completed, and its permits are not to be returned any more. -/
structure Over (m : Machine O) (h : Holder) (s : Standing O) : Prop where
  standing : m.world.standing? h = some s
  status : s.status ≠ .pending
  agenda : ∀ work ∈ m.agenda, work.owner? = some h → work.isRelease = false

end Machine

section Phases

variable {m k n : Machine O} {h : Holder} {visited : List (Machine O)} {c : Completion O}

/-- After the attempt that wins, the second phase begins. -/
theorem Next.due (hk : Next m k) (hm : m.Tidy) {permits : Option (Permits (Release O))}
    (hs : m.world.standing? h = some (.pending permits)) (ha : m.attempt? = some ⟨h, c, true⟩) :
    k.Due h permits c := by
  obtain ⟨hstanding, reply, hagenda, hreply⟩ := hk.of_won ha hs
  have hpending : m.world.IsPending h := ⟨permits, hs⟩
  refine ⟨hstanding, reply ++ m.agenda.tail, ?_, ?_⟩
  · rw [hagenda, List.append_assoc]
  · intro work hwork ho
    -- Behind it, nothing is about the holder: the reply is nobody's, and what was on the agenda
    -- before
    -- belongs to holders that were completed before.
    rcases List.mem_append.mp hwork with hwork | hwork
    · rw [hreply work hwork] at ho
      cases ho
    · exact hpending.not_isSettled (hm work (List.mem_of_mem_tail hwork) h ho)

namespace Machine

theorem Over.not_isPending {s : Standing O} (hm : m.Over h s) : ¬ m.world.IsPending h :=
  fun hp => hp.not_isSettled ⟨s, hm.standing, hm.status⟩

theorem Over.releaseCall?_ne {s : Standing O} (hm : m.Over h s) (call : ReleaseCall O) :
    m.releaseCall? ≠ some (h, call) := by
  intro hc
  obtain ⟨work, rest, hagenda, ho, hrelease⟩ := exists_of_releaseCall? hc
  have hfalse := hm.agenda work (hagenda ▸ List.mem_cons_self) ho
  rw [hrelease] at hfalse
  cases hfalse

/-- The third phase begins once nothing behind the first entry of the agenda returns the permits. -/
theorem over_of_tail {s : Standing O} (hs : m.world.standing? h = some s)
    (hne : s.status ≠ .pending)
    (htail : ∀ work ∈ m.agenda.tail, work.owner? = some h → work.isRelease = false)
    (hk : Next m k) : k.Over h s := by
  refine ⟨hk.standing_of_settled hs hne, hne, fun work hwork ho => ?_⟩
  rcases hk.agenda hwork ho with ⟨c, hc⟩ | hold | ⟨hrelease, -⟩
  · have hp : m.world.IsPending h := (won_of_attempt? hc).mp rfl
    exact absurd ⟨s, hs, hne⟩ hp.not_isSettled
  · exact htail work hold ho
  · exact hrelease

/-- The third phase lasts. -/
theorem Over.next {s : Standing O} (hm : m.Over h s) (hk : Next m k) : k.Over h s :=
  over_of_tail hm.standing hm.status (fun work hwork =>
    hm.agenda work (List.mem_of_mem_tail hwork)) hk

end Machine

/-- In the third phase all attempts lose, no release function is called, and nothing changes. -/
theorem Run.of_over {s : Standing O} (hrun : Run m visited n) (hm : m.Over h s) :
    (∀ a ∈ attempts h visited, a.won = false) ∧ releaseCalls h (visited ++ [n]) = [] ∧
      ∀ k ∈ visited ++ [n], k.world.standing? h = some s := by
  induction hrun with
  | refl m =>
    refine ⟨by simp [attempts], ?_, ?_⟩
    · exact releaseCalls_cons_of_forall_ne hm.releaseCall?_ne
    · intro k hk
      rw [List.mem_singleton.mp hk]
      exact hm.standing
  | @next m k n visited hk hrun ih =>
    obtain ⟨hlost, hcalls, hstanding⟩ := ih (hm.next hk)
    refine ⟨?_, ?_, ?_⟩
    · intro a ha
      obtain ⟨l, hl, hla, hh⟩ := mem_attempts.mp ha
      rcases List.mem_cons.mp hl with rfl | hl
      · refine Bool.eq_false_iff.mpr fun hw => hm.not_isPending ?_
        rw [← hh]
        exact (won_of_attempt? hla).mp hw
      · exact hlost a (mem_attempts.mpr ⟨l, hl, hla, hh⟩)
    · rw [List.cons_append, releaseCalls_cons_of_forall_ne hm.releaseCall?_ne]
      exact hcalls
    · intro l hl
      rcases List.mem_cons.mp hl with rfl | hl
      · exact hm.standing
      · exact hstanding l hl

/-- The calls of a release function after a completion: one call comes first if there are permits,
and no other follows. -/
inductive Released (h : Holder) (c : Completion O) :
    Option (Permits (Release O)) → List (Machine O) → Prop
  | nothing {ms : List (Machine O)} (hcalls : releaseCalls h ms = []) : Released h c none ms
  | call {p : Permits (Release O)} {next : Machine O} {later : List (Machine O)}
      (hcall : next.releaseCall? =
        some (h, ⟨p, c.outcome, next.world.releaseTime p.release⟩))
      (hcalls : releaseCalls h later = []) : Released h c (some p) (next :: later)

theorem Machine.Due.over (hm : m.Due h none c) : m.Over h (h.settled none c) := by
  obtain ⟨hstanding, tail, hagenda, htail⟩ := hm
  refine ⟨hstanding, status_settled_ne h none c, fun work hwork ho => ?_⟩
  rw [hagenda] at hwork
  rcases List.mem_append.mp hwork with hwork | hwork
  · cases h with
    | completable i => cases hwork
    | promise i =>
      rcases List.mem_cons.mp hwork with rfl | hwork
      · rfl
      · rw [List.mem_singleton.mp hwork]
        rfl
  · exact absurd ho (htail work hwork)

/-- The permits are returned first, and then never again. -/
theorem Run.of_due (hrun : Run m visited n) {permits : Option (Permits (Release O))}
    (hm : m.Due h permits c) :
    (∀ a ∈ attempts h visited, a.won = false) ∧ Released h c permits (visited ++ [n]) ∧
      ∀ k ∈ visited ++ [n], k.world.standing? h = some (h.settled permits c) := by
  cases permits with
  | none =>
    obtain ⟨hlost, hcalls, hstanding⟩ := hrun.of_over hm.over
    exact ⟨hlost, .nothing hcalls, hstanding⟩
  | some p =>
    obtain ⟨hstanding, tail, hagenda, htail⟩ := hm
    have hcall : m.releaseCall? = some (h, ⟨p, c.outcome, m.world.releaseTime p.release⟩) := by
      rw [Machine.releaseCall?, hagenda]
      rfl
    have hattempt : m.attempt? = none := by
      rw [Machine.attempt?, hagenda]
      rfl
    cases hrun with
    | refl =>
      refine ⟨by simp [attempts], .call hcall rfl, ?_⟩
      intro k hk
      rw [List.mem_singleton.mp hk]
      exact hstanding
    | @next _ k _ visited hk hrun =>
      -- Only wakers and callbacks follow the return.
      have hbehind : ∀ work ∈ m.agenda.tail, work.owner? = some h → work.isRelease = false := by
        rw [hagenda]
        intro work hwork ho
        cases h with
        | completable i => exact absurd ho (htail work hwork)
        | promise i =>
          rcases List.mem_cons.mp hwork with rfl | hwork
          · rfl
          · rcases List.mem_cons.mp hwork with rfl | hwork
            · rfl
            · exact absurd ho (htail work hwork)
      have hover := Machine.over_of_tail hstanding (status_settled_ne h _ c) hbehind hk
      obtain ⟨hlost, hcalls, hlater⟩ := hrun.of_over hover
      refine ⟨?_, .call hcall hcalls, ?_⟩
      · rw [attempts_cons_of_forall_ne fun a ha => by rw [hattempt] at ha; cases ha]
        exact hlost
      · intro l hl
        rcases List.mem_cons.mp hl with rfl | hl
        · exact hstanding
        · exact hlater l hl

end Phases

/-! ## Courses -/

/-- What a run does to a holder that is pending when the run starts: nothing yet, or one
completion. -/
inductive Course (h : Holder) (permits : Option (Permits (Release O))) (visited : List (Machine O))
    (n : Machine O) : Prop
  | pending (hattempts : attempts h visited = [])
      (hquiet : ∀ k ∈ visited ++ [n], k.Quiet h)
      (hpending : ∀ k ∈ visited ++ [n], k.world.standing? h = some (.pending permits))
  | settled (before after : List (Machine O)) (first : Machine O) (c : Completion O)
      (hvisited : visited = before ++ first :: after)
      (hattempts : attempts h before = [])
      (hfirst : first.attempt? = some ⟨h, c, true⟩)
      (hlost : ∀ a ∈ attempts h after, a.won = false)
      (hquiet : ∀ k ∈ before ++ [first], k.Quiet h)
      (hreleased : Released h c permits (after ++ [n]))
      (hpending : ∀ k ∈ before ++ [first], k.world.standing? h = some (.pending permits))
      (hsettled : ∀ k ∈ after ++ [n], k.world.standing? h = some (h.settled permits c))

/-- **Every run takes its course.** The induction is on the run, as long as the holder is
pending. -/
theorem course_of_isPending {m n : Machine O} {h : Holder} {visited : List (Machine O)}
    {permits : Option (Permits (Release O))} (hrun : Run m visited n) (hm : m.Tidy)
    (hs : m.world.standing? h = some (.pending permits)) : Course h permits visited n := by
  induction hrun with
  | refl m =>
    refine .pending rfl ?_ ?_
    · intro k hk
      rw [List.mem_singleton.mp hk]
      exact Machine.quiet_of_isPending hm ⟨permits, hs⟩
    · intro k hk
      rw [List.mem_singleton.mp hk]
      exact hs
  | @next m k n visited hk hrun ih =>
    have hquiet : m.Quiet h := Machine.quiet_of_isPending hm ⟨permits, hs⟩
    by_cases hwins : ∃ c, m.attempt? = some ⟨h, c, true⟩
    -- This is the first attempt, and all that comes after it is decided.
    · obtain ⟨c, hc⟩ := hwins
      obtain ⟨hlost, hreleased, hsettled⟩ := hrun.of_due (hk.due hm hs hc)
      refine .settled [] visited m c rfl rfl hc hlost ?_ hreleased ?_ hsettled
      · intro l hl
        rw [List.mem_singleton.mp hl]
        exact hquiet
      · intro l hl
        rw [List.mem_singleton.mp hl]
        exact hs
    · have hno : ∀ c, m.attempt? ≠ some ⟨h, c, true⟩ := fun c hc => hwins ⟨c, hc⟩
      -- An attempt on a pending holder wins, so there is none.
      have hne : ∀ a, m.attempt? = some a → a.holder ≠ h := by
        rintro a ha rfl
        refine hno a.completion ?_
        rw [ha, ← (won_of_attempt? ha).mpr ⟨permits, hs⟩]
      cases ih (hk.tidy hm) (hk.standing hs hno) with
      | pending hattempts hquiets hpending =>
        refine .pending ?_ ?_ ?_
        · rw [attempts_cons_of_forall_ne hne, hattempts]
        · exact List.forall_mem_cons.mpr ⟨hquiet, hquiets⟩
        · exact List.forall_mem_cons.mpr ⟨hs, hpending⟩
      | settled before after first c hvisited hattempts hfirst hlost hquiets hreleased hpending
          hsettled =>
        refine .settled (m :: before) after first c ?_ ?_ hfirst hlost ?_ hreleased ?_ hsettled
        · rw [hvisited, List.cons_append]
        · rw [attempts_cons_of_forall_ne hne, hattempts]
        · exact List.forall_mem_cons.mpr ⟨hquiet, hquiets⟩
        · exact List.forall_mem_cons.mpr ⟨hs, hpending⟩

/-! ## What attempts bring about -/

/-- How a holder answers the attempts of a run: whether they win, how it ends, and which permits are
returned with which outcome. -/
structure Conduct (O : Type) where
  wins : List Bool
  status : Option Status
  returned : List (Permits (Release O) × O)

/-- The conduct of a holder in a run up to a machine, with the call that this machine is about to
make. -/
def conduct (h : Holder) (visited : List (Machine O)) (n : Machine O) : Conduct O where
  wins := (attempts h visited).map (·.won)
  status := (n.world.standing? h).map (·.status)
  returned := (releaseCalls h (visited ++ [n])).map fun call => (call.permits, call.outcome)

/-- The conduct that some completions call for. -/
def Conduct.ofCompletions (permits : Option (Permits (Release O))) : List (Completion O) → Conduct O
  | [] => ⟨[], some .pending, []⟩
  | c :: later =>
    ⟨true :: later.map fun _ => false, some c.status, permits.toList.map fun p => (p, c.outcome)⟩

/-- The completions that are attempted, the earliest first. -/
def completions (h : Holder) (visited : List (Machine O)) : List (Completion O) :=
  (attempts h visited).map (·.completion)

section Conducts

variable {h : Holder} {permits : Option (Permits (Release O))} {c : Completion O}

theorem Released.map_eq {ms : List (Machine O)} (hr : Released h c permits ms) :
    ((releaseCalls h ms).map fun call => (call.permits, call.outcome)) =
      permits.toList.map fun p => (p, c.outcome) := by
  cases hr with
  | nothing hcalls => rw [hcalls]; rfl
  | call hcall hcalls => rw [releaseCalls_cons_of_releaseCall? hcall, hcalls]; rfl

theorem releaseCalls_eq_nil_of_quiet {ms : List (Machine O)} (hq : ∀ k ∈ ms, k.Quiet h) :
    releaseCalls h ms = [] := by
  induction ms with
  | nil => rfl
  | cons m ms ih =>
    obtain ⟨hm, hms⟩ := List.forall_mem_cons.mp hq
    rw [releaseCalls_cons_of_forall_ne hm.1, ih hms]

/-- **The conduct depends on the completions only.** -/
theorem Course.conduct_eq {visited : List (Machine O)} {n : Machine O}
    (hcourse : Course h permits visited n) :
    conduct h visited n = .ofCompletions permits (completions h visited) := by
  cases hcourse with
  | pending hattempts hquiet hpending =>
    have hn := hpending n (List.mem_append_right visited List.mem_cons_self)
    rw [conduct, completions, hattempts, releaseCalls_eq_nil_of_quiet hquiet, hn]
    rfl
  | settled before after first c hvisited hattempts hfirst hlost hquiet hreleased hpending
      hsettled =>
    have hn := hsettled n (List.mem_append_right after List.mem_cons_self)
    -- There are no attempts before the one that wins, and no calls up to it.
    have hall : attempts h visited = ⟨h, c, true⟩ :: attempts h after := by
      rw [hvisited, attempts, List.filterMap_append]
      change attempts h before ++ attempts h (first :: after) = _
      rw [hattempts, attempts_cons_of_attempt? hfirst rfl]
      rfl
    have hcalls : releaseCalls h (visited ++ [n]) = releaseCalls h (after ++ [n]) := by
      have hcut : visited ++ [n] = (before ++ [first]) ++ (after ++ [n]) := by
        rw [hvisited]
        simp
      rw [hcut, releaseCalls, List.filterMap_append]
      change releaseCalls h (before ++ [first]) ++ releaseCalls h (after ++ [n]) = _
      rw [releaseCalls_eq_nil_of_quiet hquiet]
      rfl
    have hwins : (attempts h after).map (·.won) = (attempts h after).map fun _ => false :=
      List.map_congr_left hlost
    have hstatus : (h.settled permits c).status = c.status := by cases h <;> rfl
    rw [conduct, completions, hall, hcalls, hreleased.map_eq, hn, List.map_cons, hwins,
      Option.map_some, hstatus, List.map_cons, Conduct.ofCompletions, List.map_map]
    rfl

end Conducts

/-! ## Completed once -/

/-- A run in the life of a holder: it starts from where the holder is pending, which is a machine
that was reached by a run from an empty agenda. -/
def Life (h : Holder) (permits : Option (Permits (Release O))) (visited : List (Machine O))
    (n : Machine O) : Prop :=
  ∃ (rest start : Machine O) (past : List (Machine O)), rest.agenda = [] ∧ Run rest past start ∧
    start.world.standing? h = some (.pending permits) ∧ Run start visited n

/-- **Holders are completed once.** Whatever is attempted in a run, and from wherever: the run takes
its course, every attempt by a command replies whether it won, and all holders of the same permits
on which the same completions are attempted answer alike, be they promises or completables. -/
theorem settled_once {h : Holder} {permits : Option (Permits (Release O))}
    {visited : List (Machine O)} {n : Machine O} (hlife : Life h permits visited n) :
    Course h permits visited n ∧
      (∀ (before after : List (Machine O)) (k : Machine O) (cmd : Command O) (rest : List (Work O))
        (a : Attempt O), visited = before ++ k :: after → k.agenda = .command cmd :: rest →
          k.attempt? = some a → Returns rest (.ok (.truth a.won)) (after ++ [n])) ∧
      ∀ (other : Holder) (visited' : List (Machine O)) (n' : Machine O),
        Life other permits visited' n' → completions other visited' = completions h visited →
          conduct other visited' n' = conduct h visited n := by
  have hcourse {h : Holder} {visited : List (Machine O)} {n : Machine O}
      (hlife : Life h permits visited n) : Course h permits visited n := by
    obtain ⟨rest, start, past, hrest, hpast, hs, hrun⟩ := hlife
    -- At rest there are no callbacks on the agenda.
    have hempty : rest.Tidy := by
      intro work hwork
      rw [hrest] at hwork
      cases hwork
    exact course_of_isPending hrun (hpast.tidy hempty) hs
  refine ⟨hcourse hlife, ?_, ?_⟩
  · rintro before after k cmd rest a rfl hk ha
    obtain ⟨-, start, -, -, -, -, hrun⟩ := hlife
    exact hrun.replies hk ha
  · intro other visited' n' hother hsame
    rw [(hcourse hother).conduct_eq, (hcourse hlife).conduct_eq, hsame]

/-- Permits whose return attempts to cancel again what the name stands for. -/
def nestedPermits : Permits (Release ActionResult) where
  units := 2
  start := 5
  release := .scripted "permits" 0
    (.act "promise" (.settle "action" .cancelled)
      (.act "completable" (.complete "action" .cancelled) .done))

/-- A promise that holds such permits. -/
def promiseAtRest : Machine ActionResult where
  world := {
    bench := { names := [("action", .promise 0)], clocks := #[⟨7⟩] }
    promises := #[{
      permits := some nestedPermits
      listeners := [⟨"listener", .act "late" (.settle "action" (.success .success "")) .done⟩] }] }
  agenda := []

/-- A completable that holds such permits. -/
def completableAtRest : Machine ActionResult where
  world := {
    bench := { names := [("action", .completable 0)], clocks := #[⟨7⟩] }
    completables := #[{ permits := some nestedPermits }] }
  agenda := []

/-- The promise times out, and the release function and the listener both attempt another
completion. The completable times out likewise, and the last attempt on it comes when the first has
returned. -/
theorem settled_once_nested :
    ∃ visited n visited' n', Life (.promise 0) (some nestedPermits) visited n ∧
      Life (.completable 0) (some nestedPermits) visited' n' ∧ n.agenda = [] ∧ n'.agenda = [] ∧
      (conduct (.promise 0) visited n).wins = [true, false, false] ∧
      (conduct (.promise 0) visited n).status = some .timeout ∧
      ((conduct (.promise 0) visited n).returned.map fun (p, outcome) =>
        (p.units, p.start, outcome)) = [(2, 5, .timeout)] ∧
      conduct (.completable 0) visited' n' = conduct (.promise 0) visited n := by
  let first : Machine ActionResult :=
    { completableAtRest with agenda := [.command (.complete "action" .timeout)] }
  have hpromise : Run promiseAtRest _ _ :=
    .next (.command rfl (.settle "action" .timeout) [] (.ok .nothing))
      (run_trace (n := 30) (by decide +kernel))
  have hcompletable : Run completableAtRest _ (Machine.steps 30 first) :=
    .next (.command rfl (.complete "action" .timeout) [] (.ok .nothing))
      (run_trace (by decide +kernel))
  have hlast : Run (Machine.steps 30 first) _ _ :=
    .next (.command (by decide +kernel) (.complete "action" (.success .success "")) []
      (.ok .nothing))
      (run_trace (n := 30) (by decide +kernel))
  have hlife : Life (.promise 0) (some nestedPermits) _ _ :=
    ⟨promiseAtRest, promiseAtRest, [], rfl, .refl _, rfl, hpromise⟩
  have hlife' : Life (.completable 0) (some nestedPermits) _ _ :=
    ⟨completableAtRest, completableAtRest, [], rfl, .refl _, rfl, hcompletable.append hlast⟩
  obtain ⟨-, -, halike⟩ := settled_once hlife
  refine ⟨_, _, _, _, hlife, hlife', ?_, ?_, ?_, ?_, ?_, halike _ _ _ hlife' ?_⟩
  all_goals decide +kernel

end Admission.Scenario
