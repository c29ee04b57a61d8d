import Admission.Recorder
import Mathlib.Algebra.Order.Ring.Nat
import Mathlib.Data.List.Basic
import Mathlib.Tactic.SplitIfs

/-!
# Writers and a reader at a recorder

Any number of writers pass through a recorder, and one reader at a time captures from it. Their
steps fall between each other in any order. The phases of the tickets are counted by the swaps of
the start counter. While fewer tickets than there are words of one sign are taken between two swaps,
the start counter tells how many writers have entered the current phase, and the end counter how
many of them have left. A reader that waits for the two to agree waits for the writers of the phase
before the swap, and for no others: the phases before that one were waited for by earlier readers.

## Main definitions

* `Writer`, `Reader`, `Traffic`: how far the writers and the reader have come
* `Step`, `Reachable`: the steps of all of them, and where these lead
* `Traffic.entered`, `Traffic.exited`: how many writers have entered a phase and left it
* `Traffic.Orderly`: what holds at all times

## Main results

* `Orderly.advance`: what holds is kept by the steps of writers
* `Orderly.step`: what holds is kept by each step
* `Orderly.isDrained_iff`: what the reader waits for
* `Orderly.not_found_retired`: no writer is about to write to an instance that is being read or
  cleared
-/

namespace Admission

/-! ## Tickets -/

namespace Phaser

/-- Whether a phase is even, where phases are numbered from zero. -/
def evenPhase (k : Nat) : Bool := k % 2 == 0

theorem evenPhase_succ (k : Nat) : evenPhase (k + 1) = !evenPhase k := by
  unfold evenPhase
  rcases Nat.mod_two_eq_zero_or_one k with h | h
  · rw [Nat.add_mod, h]
    rfl
  · rw [Nat.add_mod, h]
    rfl

/-- The start ticket of a phase after so many others. -/
def nthTicket (even : Bool) (n : Nat) : Int64 := firstTicket even + Int64.ofNat n

theorem nthTicket_zero (even : Bool) : nthTicket even 0 = firstTicket even := Int64.add_zero _

theorem nthTicket_succ (even : Bool) (n : Nat) : nthTicket even (n + 1) = nthTicket even n + 1 := by
  rw [nthTicket, nthTicket, Int64.ofNat_add, Int64.add_assoc]
  rfl

theorem toInt_nthTicket {n : Nat} (hn : n < 2 ^ 63) (even : Bool) :
    (nthTicket even n).toInt = if even then (n : Int) else n - 2 ^ 63 := by
  rw [nthTicket, Int64.toInt_add, Int64.toInt_ofNat_of_lt hn]
  cases even with
  | true =>
    have hfirst : (firstTicket true).toInt = 0 := rfl
    rw [hfirst, if_pos rfl, Int.bmod_eq_of_le (by omega) (by omega)]
    omega
  | false =>
    have hfirst : (firstTicket false).toInt = -2 ^ 63 := rfl
    rw [hfirst, if_neg Bool.false_ne_true, Int.bmod_eq_of_le (by omega) (by omega)]
    omega

/-- The sign of a ticket tells its phase. -/
theorem nthTicket_lt_zero_iff {n : Nat} (hn : n < 2 ^ 63) (even : Bool) :
    nthTicket even n < 0 ↔ even = false := by
  have hzero : (0 : Int64).toInt = 0 := rfl
  rw [Int64.lt_iff_toInt_lt, toInt_nthTicket hn, hzero]
  cases even with
  | true =>
    rw [if_pos rfl]
    simp
  | false =>
    rw [if_neg Bool.false_ne_true]
    simp only [iff_true]
    omega

theorem nthTicket_inj {m n : Nat} (hm : m < 2 ^ 63) (hn : n < 2 ^ 63) (even : Bool) :
    nthTicket even m = nthTicket even n ↔ m = n := by
  rw [← Int64.toInt_inj, toInt_nthTicket hm, toInt_nthTicket hn]
  cases even with
  | true =>
    rw [if_pos rfl, if_pos rfl]
    omega
  | false =>
    rw [if_neg Bool.false_ne_true, if_neg Bool.false_ne_true]
    omega

theorem ended_exit {p : Phaser} {ticket : Int64} {k : Nat} (h : ticket < 0 ↔ evenPhase k = false)
    (even : Bool) :
    (p.exit ticket).ended even = p.ended even + if even = evenPhase k then 1 else 0 := by
  unfold exit ended
  by_cases hneg : ticket < 0
  · rw [if_pos hneg, h.mp hneg]
    cases even <;> simp
  · have heven : evenPhase k = true := by
      rw [h] at hneg
      exact Bool.of_not_eq_false hneg
    rw [if_neg hneg, heven]
    cases even <;> simp

/-- The phase that comes next is told by the sign of the start counter. -/
theorem nextIsEven_of_start {p : Phaser} {k n : Nat} (h : p.start = nthTicket (evenPhase k) n)
    (hn : n < 2 ^ 63) : p.nextIsEven = evenPhase (k + 1) := by
  have hneg := nthTicket_lt_zero_iff hn (evenPhase k)
  rw [← h] at hneg
  rw [evenPhase_succ, nextIsEven]
  cases heven : evenPhase k with
  | true =>
    rw [heven] at hneg
    exact decide_eq_false fun h => Bool.noConfusion (hneg.mp h)
  | false =>
    rw [heven] at hneg
    exact decide_eq_true (hneg.mpr rfl)

theorem start_resetEnd (p : Phaser) (even : Bool) : (p.resetEnd even).start = p.start := by
  cases even <;> rfl

theorem ended_resetEnd (p : Phaser) (even even' : Bool) :
    (p.resetEnd even).ended even' = if even' = even then firstTicket even else p.ended even' := by
  cases even <;> cases even' <;> rfl

end Phaser

/-! ## Writers and a reader -/

namespace Recorder

/-- How far a writer has come. -/
inductive Progress where
  | entered
  /-- It has found an instance to be active, and writes to it next. -/
  | found (h : Half)
  | wrote (h : Half)
  | left
deriving DecidableEq, Repr

/-- A writer. -/
structure Writer where
  ticket : Int64
  /-- How often the start counter had been swapped when it took its ticket. -/
  phase : Nat
  progress : Progress
deriving DecidableEq, Repr

/-- How far a reader has come. -/
inductive Reader where
  | resting
  | switched (retired : Half)
  /-- The end counter of the next phase is reset. -/
  | prepared (retired : Half) (even : Bool)
  | waiting (retired : Half) (f : Flip)
  | ready (retired : Half)
  /-- The retired instance has been read. -/
  | clearing (retired : Half)
deriving DecidableEq, Repr

/-- A recorder with its writers and its reader. -/
structure Traffic (α : Type) where
  recorder : Recorder α
  /-- All writers, in the order in which they took their tickets. -/
  writers : List Writer := []
  reader : Reader := .resting
  /-- How often the start counter has been swapped. -/
  flips : Nat := 0
  /-- What the captures have returned. -/
  captured : List α := []

namespace Traffic

variable {α : Type}

/-- The traffic after a writer has taken its start ticket. -/
def join (t : Traffic α) : Traffic α :=
  { t with
    recorder := t.recorder.enter.1
    writers := t.writers ++ [⟨t.recorder.enter.2, t.flips, .entered⟩] }

/-- The traffic after a writer has made progress, with what it has made of the recorder. -/
def advance (t : Traffic α) (i : Nat) (w : Writer) (p : Progress) (r : Recorder α) : Traffic α :=
  { t with recorder := r, writers := t.writers.set i { w with progress := p } }

end Traffic

variable {α : Type}

/-- A step of a writer or of the reader. Instances that are cleared are `fresh`, and the writer at a
place makes the change `write` of its own. -/
inductive Step (fresh : α) (write : Nat → α → α) : Traffic α → Traffic α → Prop where
  | enter (t : Traffic α) : Step fresh write t t.join
  | find {t i w} (h : t.writers[i]? = some w) (hp : w.progress = .entered) :
      Step fresh write t (t.advance i w (.found t.recorder.active) t.recorder)
  | write {t i w half} (h : t.writers[i]? = some w) (hp : w.progress = .found half) :
      Step fresh write t
        (t.advance i w (.wrote half) (t.recorder.write half fun a => (write i a, ())).1)
  | exit {t i w half} (h : t.writers[i]? = some w) (hp : w.progress = .wrote half) :
      Step fresh write t (t.advance i w .left (t.recorder.exit w.ticket))
  | switch {t} (h : t.reader = .resting) : Step fresh write t
      { t with recorder := t.recorder.switch.1, reader := .switched t.recorder.switch.2 }
  | prepare {t retired} (h : t.reader = .switched retired) : Step fresh write t
      { t with
        recorder := t.recorder.prepareFlip.1
        reader := .prepared retired t.recorder.prepareFlip.2 }
  | swap {t retired even} (h : t.reader = .prepared retired even) : Step fresh write t
      { t with
        recorder := (t.recorder.completeFlip even).1
        reader := .waiting retired (t.recorder.completeFlip even).2
        flips := t.flips + 1 }
  | drained {t retired f} (h : t.reader = .waiting retired f) (hf : t.recorder.isDrained f = true) :
      Step fresh write t { t with reader := .ready retired }
  | read {t retired} (h : t.reader = .ready retired) : Step fresh write t
      { t with reader := .clearing retired, captured := t.captured ++ [t.recorder.get retired] }
  | clear {t retired} (h : t.reader = .clearing retired) : Step fresh write t
      { t with recorder := t.recorder.modify retired fun _ => fresh, reader := .resting }

/-- The traffic that any steps lead to, from a recorder with two fresh instances. -/
inductive Reachable (fresh : α) (write : Nat → α → α) : Traffic α → Prop where
  | start : Reachable fresh write { recorder := { first := fresh, second := fresh } }
  | next {t u} (h : Reachable fresh write t) (hstep : Step fresh write t u) :
      Reachable fresh write u

namespace Traffic

variable {t u : Traffic α} {w : Writer} {i k : Nat} {p : Progress} {retired : Half}

/-- How many writers have taken a ticket of a phase. -/
def entered (t : Traffic α) (k : Nat) : Nat := t.writers.countP fun w => w.phase = k

/-- How many writers of a phase have left. -/
def exited (t : Traffic α) (k : Nat) : Nat := t.writers.countP fun w => w.phase = k ∧
    w.progress = .left

/-- All writers of the phases before a given one have left. -/
def Settled (t : Traffic α) (k : Nat) : Prop := ∀ w ∈ t.writers, w.phase < k → w.progress = .left

/-- The writers of the current phase have found the active instance, or none so far. -/
def OnActive (t : Traffic α) : Prop :=
  ∀ w ∈ t.writers, w.phase = t.flips → ∀ h, w.progress = .found h → h = t.recorder.active

/-- What holds at each stage of a reader. -/
def Stage (t : Traffic α) : Reader → Prop
  | .resting => t.Settled t.flips
  | .switched retired => t.Settled t.flips ∧ retired = t.recorder.active.other
  | .prepared retired even => t.Settled t.flips ∧ retired = t.recorder.active.other ∧
      even = Phaser.evenPhase (t.flips + 1) ∧ t.recorder.phaser.ended even = Phaser.firstTicket even
  -- The writers of the phase before the swap may still be inside, and they may have found either
  -- instance.
  | .waiting retired f => t.OnActive ∧ retired = t.recorder.active.other ∧
      ∃ k, t.flips = k + 1 ∧ t.Settled k ∧ f.even = Phaser.evenPhase k ∧
        f.target = Phaser.nthTicket (Phaser.evenPhase k) (t.entered k) ∧
        t.recorder.phaser.ended (Phaser.evenPhase k) =
          Phaser.nthTicket (Phaser.evenPhase k) (t.exited k)
  | .ready retired => t.Settled t.flips ∧ t.OnActive ∧ retired = t.recorder.active.other
  | .clearing retired => t.Settled t.flips ∧ t.OnActive ∧ retired = t.recorder.active.other

/-- What holds at all times: the counters tell how many writers have entered the current phase and
left it, and the sign of a ticket tells its phase. -/
structure Orderly (t : Traffic α) : Prop where
  phase_le {w : Writer} (h : w ∈ t.writers) : w.phase ≤ t.flips
  sign {w : Writer} (h : w ∈ t.writers) : w.ticket < 0 ↔ Phaser.evenPhase w.phase = false
  start_eq : t.recorder.phaser.start =
    Phaser.nthTicket (Phaser.evenPhase t.flips) (t.entered t.flips)
  ended_eq : t.recorder.phaser.ended (Phaser.evenPhase t.flips) =
    Phaser.nthTicket (Phaser.evenPhase t.flips) (t.exited t.flips)
  stage : t.Stage t.reader

/-! ### Steps of writers -/

theorem entered_join (t : Traffic α) (k : Nat) :
    t.join.entered k = t.entered k + if t.flips = k then 1 else 0 := by
  unfold entered join
  rw [List.countP_append]
  simp

theorem exited_join (t : Traffic α) (k : Nat) : t.join.exited k = t.exited k := by
  unfold exited join
  rw [List.countP_append]
  simp

theorem Settled.join (hs : t.Settled k) (hk : k ≤ t.flips) : t.join.Settled k := by
  intro w hw hlt
  rcases List.mem_append.mp hw with hw | hw
  · exact hs w hw hlt
  · rw [List.mem_singleton.mp hw] at hlt
    exact absurd hk (Nat.not_le.mpr hlt)

theorem OnActive.join (ha : t.OnActive) : t.join.OnActive := by
  intro w hw hphase half hfound
  rcases List.mem_append.mp hw with hw | hw
  · exact ha w hw hphase half hfound
  · rw [List.mem_singleton.mp hw] at hfound
    cases hfound

theorem Stage.join {reader : Reader} (hstage : t.Stage reader) : t.join.Stage reader := by
  cases reader with
  | resting => exact Settled.join hstage (Nat.le_refl _)
  | switched retired =>
    obtain ⟨hs, hother⟩ := hstage
    exact ⟨hs.join (Nat.le_refl _), hother⟩
  | prepared retired even =>
    obtain ⟨hs, hrest⟩ := hstage
    exact ⟨hs.join (Nat.le_refl _), hrest⟩
  | waiting retired f =>
    obtain ⟨ha, hother, k, hflips, hs, heven, htarget, hk⟩ := hstage
    refine ⟨ha.join, hother, k, hflips, hs.join (by omega), heven, ?_, ?_⟩
    · rw [entered_join, if_neg (by omega), Nat.add_zero]
      exact htarget
    · rw [exited_join]
      exact hk
  | ready retired | clearing retired =>
    obtain ⟨hs, ha, hother⟩ := hstage
    exact ⟨hs.join (Nat.le_refl _), ha.join, hother⟩

/-- A new ticket keeps everything in order. -/
theorem Orderly.join (ho : t.Orderly) (hfew : t.entered t.flips < 2 ^ 63) : t.join.Orderly := by
  refine ⟨?_, ?_, ?_, ?_, ?_⟩
  · intro w hw
    rcases List.mem_append.mp hw with hw | hw
    · exact ho.phase_le hw
    · rw [List.mem_singleton.mp hw]
      exact Nat.le_refl _
  · intro w hw
    rcases List.mem_append.mp hw with hw | hw
    · exact ho.sign hw
    · rw [List.mem_singleton.mp hw]
      show t.recorder.phaser.start < 0 ↔ _
      rw [ho.start_eq]
      exact Phaser.nthTicket_lt_zero_iff hfew _
  · show t.recorder.phaser.start + 1 = Phaser.nthTicket _ (t.join.entered t.flips)
    rw [entered_join, if_pos rfl, Phaser.nthTicket_succ, ho.start_eq]
    rfl
  · show t.recorder.phaser.ended _ = Phaser.nthTicket _ (t.join.exited t.flips)
    rw [exited_join]
    exact ho.ended_eq
  · exact ho.stage.join

theorem countP_set (q : Writer → Bool) {l : List Writer} (h : l[i]? = some w) (w' : Writer) :
    (l.set i w').countP q + (if q w then 1 else 0) = l.countP q + if q w' then 1 else 0 := by
  induction l generalizing i with
  | nil => cases h
  | cons v l ih =>
    cases i with
    | zero =>
      cases h
      rw [List.set_cons_zero, List.countP_cons, List.countP_cons]
      omega
    | succ i =>
      have hrest := ih h
      rw [List.set_cons_succ, List.countP_cons, List.countP_cons]
      omega

section Advance

variable {r : Recorder α} (h : t.writers[i]? = some w)
include h

theorem entered_advance : (t.advance i w p r).entered k = t.entered k := by
  have hcount := countP_set (fun w => w.phase = k) h { w with progress := p }
  exact Nat.add_right_cancel hcount

theorem exited_advance (hw : w.progress ≠ .left) :
    (t.advance i w p r).exited k = t.exited k + if w.phase = k ∧ p = .left then 1 else 0 := by
  have hcount := countP_set (fun w => w.phase = k ∧ w.progress = .left) h { w with progress := p }
  have hno : ¬ decide (w.phase = k ∧ w.progress = .left) = true := by
    rw [decide_eq_true_eq]
    exact fun hleft => hw hleft.2
  rw [if_neg hno, Nat.add_zero] at hcount
  simp only [decide_eq_true_eq] at hcount
  exact hcount

omit h in
theorem mem_advance {v : Writer} (hv : v ∈ (t.advance i w p r).writers) :
    v = { w with progress := p } ∨ v ∈ t.writers :=
  (List.mem_or_eq_of_mem_set hv).symm

theorem Settled.advance (hs : t.Settled k) (hw : w.progress ≠ .left) :
    (t.advance i w p r).Settled k := by
  intro v hv hlt
  rcases mem_advance hv with rfl | hv
  · exact absurd (hs w (List.mem_of_getElem? h) hlt) hw
  · exact hs v hv hlt

omit h in
theorem OnActive.advance (ha : t.OnActive) (hp : ∀ half, p = .found half → half = t.recorder.active)
    (hactive : r.active = t.recorder.active) : (t.advance i w p r).OnActive := by
  intro v hv hphase half hfound
  show half = r.active
  rw [hactive]
  rcases mem_advance hv with rfl | hv
  · exact hp half hfound
  · exact ha v hv hphase half hfound

end Advance

theorem evenPhase_eq_iff {j : Nat} (h : j = k ∨ j = k + 1 ∨ k = j + 1) :
    Phaser.evenPhase k = Phaser.evenPhase j ↔ j = k := by
  rcases h with rfl | rfl | rfl
  · simp
  · rw [Phaser.evenPhase_succ]
    simp
  · rw [Phaser.evenPhase_succ]
    simp

theorem nthTicket_ite (even : Bool) (n : Nat) (c : Prop) [Decidable c] :
    Phaser.nthTicket even (n + if c then 1 else 0) = Phaser.nthTicket even n + if c
      then 1 else 0 := by
  split_ifs
  · exact Phaser.nthTicket_succ even n
  · exact (Int64.add_zero _).symm

/-- A writer that is inside belongs to the current phase or to the one before. -/
theorem Orderly.near (ho : t.Orderly) (h : w ∈ t.writers) (hw : w.progress ≠ .left) :
    w.phase = t.flips ∨ t.flips = w.phase + 1 := by
  have hle := ho.phase_le h
  have hafter {k : Nat} (hs : t.Settled k) : k ≤ w.phase := by
    by_contra hlt
    exact hw (hs w h (Nat.lt_of_not_le hlt))
  have hstage := ho.stage
  cases hr : t.reader with
  | resting =>
    rw [hr] at hstage
    exact Or.inl (Nat.le_antisymm hle (hafter hstage))
  | switched | prepared | ready | clearing =>
    rw [hr] at hstage
    exact Or.inl (Nat.le_antisymm hle (hafter hstage.1))
  | waiting retired f =>
    rw [hr] at hstage
    obtain ⟨-, -, k, hflips, hs, -⟩ := hstage
    have := hafter hs
    omega

section Progress

variable {r : Recorder α} (ho : t.Orderly) (h : t.writers[i]? = some w) (hw : w.progress ≠ .left)
  (hp : ∀ half, p = .found half → half = t.recorder.active) (hactive : r.active = t.recorder.active)
  (hended : ∀ even, r.phaser.ended even =
    t.recorder.phaser.ended even + if p = .left ∧ even = Phaser.evenPhase w.phase then 1 else 0)

include h hw hended in
/-- The end counter of the current phase, or of the one before, goes on with the writers of this
phase. -/
theorem ended_advance (hk : w.phase = k ∨ w.phase = k + 1 ∨ k = w.phase + 1)
    (heq : t.recorder.phaser.ended (Phaser.evenPhase k) =
      Phaser.nthTicket (Phaser.evenPhase k) (t.exited k)) :
    r.phaser.ended (Phaser.evenPhase k) =
      Phaser.nthTicket (Phaser.evenPhase k) ((t.advance i w p r).exited k) := by
  have hiff : p = .left ∧ Phaser.evenPhase k = Phaser.evenPhase w.phase ↔ w.phase = k ∧
      p = .left := by
    rw [evenPhase_eq_iff hk, and_comm]
  rw [exited_advance h hw, nthTicket_ite, hended, heq]
  simp only [hiff]

include ho h hw hp hactive hended in
theorem Orderly.stage_advance : (t.advance i w p r).Stage t.reader := by
  have hmem := List.mem_of_getElem? h
  have hnear := ho.near hmem hw
  have hretired {half : Half} (heq : half = t.recorder.active.other) : half = r.active.other := by
    rw [hactive]
    exact heq
  have hstage := ho.stage
  cases hr : t.reader with
  | resting =>
    rw [hr] at hstage
    exact Settled.advance h hstage hw
  | switched retired =>
    rw [hr] at hstage
    obtain ⟨hs, hother⟩ := hstage
    exact ⟨hs.advance h hw, hretired hother⟩
  | prepared retired even =>
    rw [hr] at hstage
    obtain ⟨hs, hother, rfl, hreset⟩ := hstage
    refine ⟨hs.advance h hw, hretired hother, rfl, ?_⟩
    -- The writers that are inside are all of the current phase.
    have hphase : w.phase = t.flips := by
      by_contra hne
      exact hw (hs w hmem (by omega))
    have hno : ¬ (p = .left ∧ Phaser.evenPhase (t.flips + 1) = Phaser.evenPhase w.phase) := by
      rw [hphase, evenPhase_eq_iff (by omega)]
      omega
    show r.phaser.ended (Phaser.evenPhase (t.flips + 1)) = _
    rw [hended, if_neg hno, Int64.add_zero]
    exact hreset
  | waiting retired f =>
    rw [hr] at hstage
    obtain ⟨ha, hother, k, hflips, hs, heven, htarget, hk⟩ := hstage
    refine ⟨ha.advance hp hactive, hretired hother, k, hflips, hs.advance h hw, heven, ?_, ?_⟩
    · rw [entered_advance h]
      exact htarget
    · exact ended_advance h hw hended (by omega) hk
  | ready retired | clearing retired =>
    rw [hr] at hstage
    obtain ⟨hs, ha, hother⟩ := hstage
    exact ⟨hs.advance h hw, ha.advance hp hactive, hretired hother⟩

include ho h hw hp hactive hended in
/-- The progress of a writer keeps everything in order if it finds the active instance, and gives
its end ticket when it leaves. -/
theorem Orderly.advance (hstart : r.phaser.start = t.recorder.phaser.start) :
    (t.advance i w p r).Orderly := by
  have hmem := List.mem_of_getElem? h
  have hnear := ho.near hmem hw
  refine ⟨?_, ?_, ?_, ?_, ho.stage_advance h hw hp hactive hended⟩
  · intro v hv
    rcases mem_advance hv with rfl | hv
    · have hle := ho.phase_le hmem
      exact hle
    · exact ho.phase_le hv
  · intro v hv
    rcases mem_advance hv with rfl | hv
    · have hsign := ho.sign hmem
      exact hsign
    · exact ho.sign hv
  · show r.phaser.start = Phaser.nthTicket _ ((t.advance i w p r).entered t.flips)
    rw [entered_advance h, hstart]
    exact ho.start_eq
  · exact ended_advance (k := t.flips) h hw hended (by omega) ho.ended_eq

end Progress

theorem exited_le_entered (t : Traffic α) (k : Nat) : t.exited k ≤ t.entered k := by
  apply List.countP_mono_left
  intro w _ h
  rw [decide_eq_true_eq] at h ⊢
  exact h.1

theorem forall_of_countP_eq {q q' : Writer → Bool} {l : List Writer}
    (himp : ∀ w, q w = true → q' w = true)
    (heq : l.countP q = l.countP q') : ∀ w ∈ l, q' w = true → q w = true := by
  induction l with
  | nil => exact fun w hw => nomatch hw
  | cons v l ih =>
    have hle : l.countP q ≤ l.countP q' := List.countP_mono_left fun w _ => himp w
    rw [List.countP_cons, List.countP_cons] at heq
    have hfirst : q' v = true → q v = true := by
      intro hv
      by_contra hno
      rw [if_neg hno, if_pos hv] at heq
      omega
    have hrest : l.countP q = l.countP q' := by
      by_cases hv : q v = true
      · rw [if_pos hv, if_pos (himp v hv)] at heq
        omega
      · rw [if_neg hv, if_neg fun h => hv (hfirst h)] at heq
        omega
    intro w hw
    rcases List.mem_cons.mp hw with rfl | hw
    · exact hfirst
    · exact ih hrest w hw

/-- As many writers of a phase have left as have entered it if and only if none of them is
inside. -/
theorem exited_eq_entered_iff :
    t.exited k = t.entered k ↔ ∀ w ∈ t.writers, w.phase = k → w.progress = .left := by
  constructor
  · intro heq w hw hphase
    have hboth := forall_of_countP_eq (fun w hboth => ?_) heq w hw (decide_eq_true hphase)
    · exact (of_decide_eq_true hboth).2
    · rw [decide_eq_true_eq] at hboth ⊢
      exact hboth.1
  · intro h
    apply List.countP_congr
    intro w hw
    rw [decide_eq_true_eq, decide_eq_true_eq]
    exact ⟨fun hboth => hboth.1, fun hphase => ⟨hphase, h w hw hphase⟩⟩

/-! ### All steps -/

section Steps

variable {fresh : α} {write : Nat → α → α}

theorem entered_le_of_step (hstep : Step fresh write t u) : t.entered k ≤ u.entered k := by
  cases hstep with
  | enter =>
    rw [entered_join]
    exact Nat.le_add_right _ _
  | find h | write h | exit h => exact Nat.le_of_eq (entered_advance h).symm
  | switch | prepare | swap | drained | read | clear => exact Nat.le_refl _

/-- **What a reader waits for** are the writers that took their tickets between the last two
swaps. -/
theorem Orderly.isDrained_iff (ho : t.Orderly) (hfew : ∀ k, t.entered k < 2 ^ 63) {f : Flip}
    (hr : t.reader = .waiting retired f) :
    t.recorder.isDrained f = true ↔ ∀ w ∈ t.writers, w.phase + 1 = t.flips →
      w.progress = .left := by
  have hstage := ho.stage
  rw [hr] at hstage
  obtain ⟨-, -, k, hflips, -, heven, htarget, hk⟩ := hstage
  have hexited : t.exited k < 2 ^ 63 := Nat.lt_of_le_of_lt (t.exited_le_entered k) (hfew k)
  rw [isDrained, beq_iff_eq, heven, htarget, hk, Phaser.nthTicket_inj hexited (hfew k),
    exited_eq_entered_iff, hflips]
  simp only [Nat.add_right_cancel_iff]

/-- **No writer is about to write to the retired instance** while it is read and cleared. -/
theorem Orderly.not_found_retired (ho : t.Orderly)
    (hr : t.reader = .ready retired ∨ t.reader = .clearing retired) :
    ∀ w ∈ t.writers, w.progress ≠ .found retired := by
  have hstage : t.Settled t.flips ∧ t.OnActive ∧ retired = t.recorder.active.other := by
    have hstage := ho.stage
    rcases hr with hr | hr
    · rwa [hr] at hstage
    · rwa [hr] at hstage
  obtain ⟨hs, ha, hother⟩ := hstage
  intro w hw hfound
  have hnot : w.progress ≠ .left := by
    rw [hfound]
    exact Progress.noConfusion
  have hphase : w.phase = t.flips := by
    by_contra hne
    have hle := ho.phase_le hw
    exact hnot (hs w hw (by omega))
  have hactive := ha w hw hphase retired hfound
  rw [hactive] at hother
  exact Half.ne_other _ hother

theorem Orderly.entered_eq_zero (ho : t.Orderly) (hk : t.flips < k) : t.entered k = 0 := by
  rw [entered, List.countP_eq_zero]
  intro w hw
  rw [decide_eq_true_eq]
  have hle := ho.phase_le hw
  omega

/-- The start counter moves on to the other phase. -/
theorem Orderly.nextIsEven_eq (ho : t.Orderly) (hfew : t.entered t.flips < 2 ^ 63) :
    t.recorder.phaser.nextIsEven = Phaser.evenPhase (t.flips + 1) :=
  Phaser.nextIsEven_of_start ho.start_eq hfew

/-- Every step keeps everything in order. -/
theorem Orderly.step (ho : t.Orderly) (hstep : Step fresh write t u)
    (hfew : ∀ k, t.entered k < 2 ^ 63) : u.Orderly := by
  have hstage := ho.stage
  cases hstep with
  | enter => exact ho.join (hfew _)
  | @find i w h hp =>
    have hw : w.progress ≠ .left := by
      rw [hp]
      exact Progress.noConfusion
    refine ho.advance h hw (fun half heq => ?_) rfl (fun even => ?_) rfl
    · exact (Progress.found.inj heq).symm
    · rw [if_neg fun hboth => Progress.noConfusion hboth.1, Int64.add_zero]
  | @write i w half h hp =>
    have hw : w.progress ≠ .left := by
      rw [hp]
      exact Progress.noConfusion
    have hphaser : ((t.recorder.write half fun a => (write i a, ())).1).phaser =
        t.recorder.phaser :=
      phaser_modify
    refine ho.advance h hw (fun half heq => Progress.noConfusion heq) active_modify
      (fun even => ?_) ?_
    · rw [hphaser, if_neg fun hboth => Progress.noConfusion hboth.1, Int64.add_zero]
    · rw [hphaser]
  | @exit i w half h hp =>
    have hw : w.progress ≠ .left := by
      rw [hp]
      exact Progress.noConfusion
    refine ho.advance h hw (fun half heq => Progress.noConfusion heq) rfl (fun even => ?_) ?_
    · have hended :=
        Phaser.ended_exit (p := t.recorder.phaser) (ho.sign (List.mem_of_getElem? h)) even
      simp only [true_and]
      exact hended
    · show (t.recorder.phaser.exit w.ticket).start = _
      unfold Phaser.exit
      split <;> rfl
  | switch hr =>
    rw [hr] at hstage
    exact ⟨fun h => ho.phase_le h, fun h => ho.sign h, ho.start_eq, ho.ended_eq, hstage,
      (Half.other_other _).symm⟩
  | prepare hr =>
    rw [hr] at hstage
    have heven := ho.nextIsEven_eq (hfew _)
    have hne : Phaser.evenPhase t.flips ≠ t.recorder.phaser.nextIsEven := by
      rw [heven, Phaser.evenPhase_succ]
      cases Phaser.evenPhase t.flips <;> decide
    refine ⟨fun h => ho.phase_le h, fun h => ho.sign h, ?_, ?_, hstage.1, hstage.2, heven, ?_⟩
    · show (t.recorder.phaser.resetEnd _).start = _
      rw [Phaser.start_resetEnd]
      exact ho.start_eq
    · show (t.recorder.phaser.resetEnd _).ended _ = _
      rw [Phaser.ended_resetEnd, if_neg hne]
      exact ho.ended_eq
    · show (t.recorder.phaser.resetEnd _).ended _ = _
      exact (Phaser.ended_resetEnd _ _ _).trans (if_pos rfl)
  | @swap retired even hr =>
    rw [hr] at hstage
    obtain ⟨hs, hother, rfl, hreset⟩ := hstage
    have hnone := ho.entered_eq_zero (Nat.lt_succ_self t.flips)
    have hnone' : t.exited (t.flips + 1) = 0 :=
      Nat.le_zero.mp (Nat.le_trans (t.exited_le_entered _) (Nat.le_of_eq hnone))
    refine ⟨fun h => Nat.le_succ_of_le (ho.phase_le h), fun h => ho.sign h, ?_, ?_, ?_,
      hother, t.flips,
      rfl, hs, ?_, ho.start_eq, ho.ended_eq⟩
    · show Phaser.firstTicket _ = Phaser.nthTicket _ (t.entered (t.flips + 1))
      rw [hnone, Phaser.nthTicket_zero]
    · show t.recorder.phaser.ended _ = Phaser.nthTicket _ (t.exited (t.flips + 1))
      rw [hnone', Phaser.nthTicket_zero]
      exact hreset
    · intro w hw hphase
      have hle := ho.phase_le hw
      exact absurd hphase (Nat.ne_of_lt (Nat.lt_succ_of_le hle))
    · show (!Phaser.evenPhase (t.flips + 1)) = _
      rw [Phaser.evenPhase_succ, Bool.not_not]
  | @drained retired f hr hf =>
    have hall := (ho.isDrained_iff hfew hr).mp hf
    rw [hr] at hstage
    obtain ⟨ha, hother, k, hflips, hs, -⟩ := hstage
    refine ⟨fun h => ho.phase_le h, fun h => ho.sign h, ho.start_eq, ho.ended_eq, ?_, ha, hother⟩
    intro w hw hlt
    by_cases hphase : w.phase + 1 = t.flips
    · exact hall w hw hphase
    · refine hs w hw ?_
      have hlt' : w.phase < t.flips := hlt
      omega
  | read hr =>
    rw [hr] at hstage
    exact ⟨fun h => ho.phase_le h, fun h => ho.sign h, ho.start_eq, ho.ended_eq, hstage⟩
  | @clear retired hr =>
    rw [hr] at hstage
    have hphaser : (t.recorder.modify retired fun _ => fresh).phaser =
        t.recorder.phaser := phaser_modify
    refine ⟨fun h => ho.phase_le h, fun h => ho.sign h, ?_, ?_, hstage.1⟩
    · dsimp only
      rw [hphaser]
      exact ho.start_eq
    · dsimp only
      rw [hphaser]
      exact ho.ended_eq

theorem orderly_start (fresh : α) :
    ({ recorder := { first := fresh, second := fresh } } : Traffic α).Orderly where
  phase_le h := nomatch h
  sign h := nomatch h
  start_eq := rfl
  ended_eq := rfl
  stage := fun _ h => nomatch h

end Steps

end Traffic

end Recorder

end Admission
