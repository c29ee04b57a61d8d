import Admission.Proofs.Scenario.Runs

/-!
# Calls that end

What an entry of the agenda starts stands before the rest of the agenda until all of it is done.
Unless something panics, this comes to an end, and from there on the rest of the agenda is gone on
with. The commands that come from outside are such calls, one after another.

## Main definitions

* `Leaves`: a call that has returned and left something behind, or is still going on
* `Machine.session`: what commands from outside pass through

## Main results

* `Run.leaves`: what holds when a call returns, and from there on
* `exists_return`: a call returns unless something panics
* `run_session`: commands from outside are a run unless they panic
-/

namespace Admission.Scenario

variable {O : Type} [Outcome O]

/-! ## Calls that end -/

/-- A call that goes on with the rest of the agenda when it returns: each of the machines is in the
middle of the call, up to the one where it returns, if there is one, and from there on something
holds. -/
def Leaves (rest : List (Work O)) (P : Machine O → Prop) : List (Machine O) → Prop
  | [] => True
  | m :: later =>
    (m.agenda = rest ∧ ∀ k ∈ m :: later, P k) ∨
      ((∃ work more, m.agenda = work :: more ++ rest) ∧ Leaves rest P later)

section Calls

variable {m n : Machine O} {visited : List (Machine O)} {rest started : List (Work O)}

/-- A step in the middle of a call stays in the call or returns. -/
theorem Next.within {k : Machine O} {work : Work O} {more : List (Work O)} (hk : Next m k)
    (hm : m.agenda = work :: more ++ rest) : ∃ started, k.agenda = started ++ rest := by
  cases hk with
  | command ha =>
    rw [ha] at hm
    cases hm
  | step ha hp =>
    obtain ⟨new, hnew, -⟩ := (step_effect hm hp).agenda
    refine ⟨new ++ more, ?_⟩
    rw [hnew, List.append_assoc]
    rfl

/-- What every step keeps holds throughout a run. -/
theorem Run.forall_mem {J : Machine O → Prop} (hrun : Run m visited n) (hm : J m)
    (hnext : ∀ l k, J l → Next l k → J k) : ∀ k ∈ visited ++ [n], J k := by
  induction hrun with
  | refl m =>
    intro k hk
    rw [List.mem_singleton.mp hk]
    exact hm
  | @next m k n visited hk hrun ih => exact List.forall_mem_cons.mpr ⟨hm, ih (hnext m k hm hk)⟩

/-- What holds when a call returns, and is kept from there on. -/
theorem Run.leaves {J P : Machine O → Prop} (hrun : Run m visited n)
    (hm : m.agenda = started ++ rest) (hj : J m) (hnext : ∀ l k, J l → Next l k → J k)
    (hreturn : ∀ l, J l → l.agenda = rest → P l) (hkeep : ∀ l k, J l → P l → Next l k → P k) :
    Leaves rest P (visited ++ [n]) := by
  have hafter {m : Machine O} {visited : List (Machine O)} (hrun : Run m visited n) (hj : J m)
      (hm : m.agenda = rest) : ∀ k ∈ visited ++ [n], P k := by
    intro k hk
    refine (hrun.forall_mem (J := fun l => J l ∧ P l) ⟨hj, hreturn m hj hm⟩ ?_ k hk).2
    exact fun l k hl hk => ⟨hnext l k hl.1 hk, hkeep l k hl.1 hl.2 hk⟩
  induction hrun generalizing started with
  | refl m =>
    cases started with
    | nil => exact Or.inl ⟨hm, hafter (.refl m) hj hm⟩
    | cons work more => exact Or.inr ⟨⟨work, more, hm⟩, trivial⟩
  | @next m k n visited hk hrun ih =>
    cases started with
    | nil => exact Or.inl ⟨hm, hafter (.next hk hrun) hj hm⟩
    | cons work more =>
      obtain ⟨started, hk'⟩ := hk.within hm
      exact Or.inr ⟨⟨work, more, hm⟩, ih hk' (hnext m k hj hk) hafter⟩

/-- **A call returns** after some steps, unless one of them is about to panic. The induction is on
the weight of the machine. -/
theorem exists_return (hm : m.agenda = started ++ rest) :
    ∃ (visited : List (Machine O)) (j : Nat), Run m visited (Machine.steps j m) ∧
      (∀ k ∈ visited, ∃ work more, k.agenda = work :: more ++ rest) ∧
        ((Machine.steps j m).agenda = rest ∨ (Machine.steps j m).panics = true) := by
  generalize hw : m.weight = w
  induction w using Nat.strongRecOn generalizing m started with
  | ind w ih =>
    cases started with
    | nil => exact ⟨[], 0, .refl m, by simp, Or.inl hm⟩
    | cons work more =>
      cases hp : m.panics with
      | true => exact ⟨[], 0, .refl m, by simp, Or.inr hp⟩
      | false =>
        have ha : m.agenda ≠ [] := by rw [hm]; exact List.cons_ne_nil _ _
        have hnext : Next m m.step := .step ha hp
        obtain ⟨started, hk⟩ := hnext.within hm
        obtain ⟨visited, j, hrun, hin, hend⟩ :=
          ih m.step.weight (hw ▸ Machine.weight_step ha) hk rfl
        refine ⟨m :: visited, j + 1, ?_⟩
        rw [Machine.steps_succ ha]
        exact ⟨.next hnext hrun, List.forall_mem_cons.mpr ⟨⟨work, more, hm⟩, hin⟩, hend⟩

end Calls

/-! ## Commands from outside -/

/-- Nothing has been done yet. -/
def newMachine : Machine ActionResult where
  world := {}
  agenda := []

/-- The machines that commands from outside pass through, one after another, and the last
machine. -/
def Machine.session (m : Machine O) : List (Command O) → List (Machine O) × Machine O
  | [] => ([], m)
  | c :: rest =>
    let first : Machine O := { world := { m.world with log := [] }, agenda := [.command c] }
    let (later, n) := first.run.session rest
    (m :: first.trace first.weight ++ later, n)

/-- **Commands from outside are a run** unless one of them panics. -/
theorem run_session {m : Machine O} (commands : List (Command O)) (hm : m.agenda = [])
    (hp : ∀ k ∈ (m.session commands).1, k.panics = false) :
    Run m (m.session commands).1 (m.session commands).2 := by
  induction commands generalizing m with
  | nil => exact .refl m
  | cons c rest ih =>
    rw [Machine.session] at hp ⊢
    obtain ⟨-, hp⟩ := List.forall_mem_cons.mp hp
    obtain ⟨hfirst, hlater⟩ := List.forall_mem_append.mp hp
    exact .next (.command hm c [] (.ok .nothing))
      ((run_trace hfirst).append (ih Machine.agenda_run hlater))

end Admission.Scenario
