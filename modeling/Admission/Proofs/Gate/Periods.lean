import Admission.Gate.RateLimiter
import Admission.Proofs.Word
import Mathlib.Data.List.Induction

/-!
# What a rate limiter admits

A rate limiter counts the units of one period, and the first request at or after the deadline starts
the next one. A late start keeps the grid of the deadlines, and a start after a long rest moves it,
but in both cases the next deadline is at least one period after the last. So two requests less than
a period apart have at most one start of a period between them, unless the second is the start
itself.

A journal keeps the requests with their answers. Each request carries the deadline that stood when
it was answered, and this tells its period.

## Main definitions

* `Demand`, `Ruling`: a request, and a request that was answered
* `RateLimiter.replay`: a limiter after some requests, with the journal
* `Ruling.sinceRollover`, `Ruling.admittedWithin`: the units admitted since the last rollover, and
  at certain times
* `Ruling.deadlines`: the deadlines of all periods

## Main results

* `lt_deadline_rollOver`, `spaced_nextDeadline`: the next deadline
* `Counted.granted_iff`: which requests are admitted
* `kept_replay`: how requests, periods and deadlines belong together
* `admissions_bounded`: what is admitted in a period, and in any time of its length
-/

namespace Admission

/-- A request for units at a time. -/
structure Demand where
  units : UInt64
  now : UInt64
deriving DecidableEq, Repr

/-- A request that was answered. -/
structure Ruling extends Demand where
  granted : Bool
  /-- Whether the request came at or after the deadline, and so started a period. -/
  rolled : Bool
  /-- The deadline after the request. -/
  deadline : UInt64
deriving DecidableEq, Repr

namespace Ruling

/-- The units that a request was granted. -/
def admitted (r : Ruling) : Nat := if r.granted then r.units.toNat else 0

/-- The units that some requests were granted. -/
def total (rs : List Ruling) : Nat := (rs.map admitted).sum

/-- The units granted since the last rollover, in a journal with the latest request first. -/
def sinceRollover : List Ruling → Nat
  | [] => 0
  | r :: earlier => r.admitted + if r.rolled then 0 else sinceRollover earlier

/-- The units granted from a time on and before another. -/
def admittedWithin (a b : Nat) (journal : List Ruling) : Nat :=
  total (journal.filter fun r => a ≤ r.now.toNat ∧ r.now.toNat < b)

/-- The deadlines of all periods, the latest first. -/
def deadlines (first : UInt64) : List Ruling → List UInt64
  | [] => [first]
  | r :: earlier =>
    if r.rolled then r.deadline :: deadlines first earlier else deadlines first earlier

@[simp] theorem total_cons (r : Ruling) (rs : List Ruling) :
    total (r :: rs) = r.admitted + total rs :=
  List.sum_cons

theorem exists_deadlines_eq (first : UInt64) (journal : List Ruling) :
    ∃ front, deadlines first journal = front ++ [first] := by
  induction journal with
  | nil => exact ⟨[], rfl⟩
  | cons r earlier ih =>
    obtain ⟨front, hfront⟩ := ih
    rw [deadlines, hfront]
    split
    · exact ⟨r.deadline :: front, rfl⟩
    · exact ⟨front, rfl⟩

/-- Requests are granted no more if fewer of them are looked at. -/
theorem total_filter_le_of_imp {p q : Ruling → Bool} {journal : List Ruling}
    (h : ∀ r ∈ journal, p r = true → q r = true) :
    total (journal.filter p) ≤ total (journal.filter q) := by
  induction journal with
  | nil => exact Nat.le_refl _
  | cons r earlier ih =>
    obtain ⟨hr, hearlier⟩ := List.forall_mem_cons.mp h
    have hle := ih hearlier
    rw [List.filter_cons, List.filter_cons]
    by_cases hp : p r = true
    · rw [if_pos hp, if_pos (hr hp)]
      exact Nat.add_le_add_left hle _
    · rw [if_neg hp]
      split
      · exact hle.trans (Nat.le_add_left _ _)
      · exact hle

/-- Requests of two kinds are granted no more than the requests of each kind together. -/
theorem total_filter_or_le (p q : Ruling → Bool) (journal : List Ruling) :
    total (journal.filter fun r => p r || q r) ≤
      total (journal.filter p) + total (journal.filter q) := by
  induction journal with
  | nil => exact Nat.le_refl _
  | cons r earlier ih =>
    simp only [List.filter_cons, total] at ih ⊢
    cases p r <;> cases q r <;> simp only [Bool.or_self, Bool.or_true, Bool.or_false,
      Bool.false_eq_true, if_true, if_false, List.map_cons, List.sum_cons] <;> omega

end Ruling

namespace RateLimiter

/-- A request with its answer. -/
def rule (l : RateLimiter) (d : Demand) : Ruling where
  toDemand := d
  granted := (l.tryAcquire d.units d.now).2
  rolled := l.deadline ≤ d.now
  deadline := (l.tryAcquire d.units d.now).1.deadline

/-- A limiter and its journal after one more request. -/
def answer (s : RateLimiter × List Ruling) (d : Demand) : RateLimiter × List Ruling :=
  ((s.1.tryAcquire d.units d.now).1, s.1.rule d :: s.2)

/-- A limiter after some requests, with the journal, the latest request first. -/
def replay (l : RateLimiter) (demands : List Demand) : RateLimiter × List Ruling :=
  demands.foldl answer (l, [])

theorem replay_snoc (l : RateLimiter) (demands : List Demand) (d : Demand) :
    l.replay (demands ++ [d]) = answer (l.replay demands) d := by
  rw [replay, List.foldl_append]
  rfl

/-! ## One request -/

variable {l : RateLimiter} {units now : UInt64}

theorem rollOver_of_lt (h : ¬ l.deadline ≤ now) : l.rollOver now = l := if_neg h

theorem rollOver_of_le (h : l.deadline ≤ now) :
    l.rollOver now = { l with count := 0, deadline := l.nextDeadline now } := if_pos h

@[simp] theorem allowed_rollOver : (l.rollOver now).allowed = l.allowed := by
  unfold rollOver
  split <;> rfl

@[simp] theorem period_rollOver : (l.rollOver now).period = l.period := by
  unfold rollOver
  split <;> rfl

theorem count_rollOver :
    (l.rollOver now).count.toNat = if l.deadline ≤ now then 0 else l.count.toNat := by
  unfold rollOver
  split <;> rfl

/-- The next deadline is at least one period on, unless the clock ends before. -/
theorem spaced_nextDeadline (hperiod : 0 < l.period.toNat) (hdue : l.deadline ≤ now)
    (hnow : now < maxWord) :
    now < l.nextDeadline now ∧ l.deadline < l.nextDeadline now ∧
      (l.nextDeadline now = maxWord ∨
        l.deadline.toNat + l.period.toNat ≤ (l.nextDeadline now).toNat) := by
  have hm : maxWord.toNat = 2 ^ 64 - 1 := rfl
  have hnext := addSat_toNat l.deadline l.period
  have hrest := addSat_toNat now l.period
  rw [UInt64.le_iff_toNat_le] at hdue
  rw [UInt64.lt_iff_toNat_lt, hm] at hnow
  rw [UInt64.lt_iff_toNat_lt, UInt64.lt_iff_toNat_lt, ← UInt64.toNat_inj, nextDeadline]
  split
  · -- More than a period has passed, and the grid starts anew.
    rename_i hpassed
    rw [UInt64.le_iff_toNat_le] at hpassed
    omega
  · rename_i hpassed
    rw [UInt64.le_iff_toNat_le] at hpassed
    omega

theorem lt_deadline_rollOver (hperiod : 0 < l.period.toNat) (hnow : now < maxWord) :
    now < (l.rollOver now).deadline ∧ l.deadline ≤ (l.rollOver now).deadline := by
  by_cases hdue : l.deadline ≤ now
  · obtain ⟨hlt, hback, -⟩ := spaced_nextDeadline hperiod hdue hnow
    rw [rollOver_of_le hdue]
    exact ⟨hlt, UInt64.le_of_lt hback⟩
  · rw [rollOver_of_lt hdue]
    exact ⟨UInt64.not_le.mp hdue, UInt64.le_refl _⟩

/-- A request is admitted if its units fit beside those of the period. The sum is the true one: it
is never taken where it would go around. -/
theorem tryAcquire_granted_iff :
    (l.tryAcquire units now).2 = true ↔
      units.toNat + (l.rollOver now).count.toNat ≤ l.allowed.toNat := by
  have hm : maxWord.toNat = 2 ^ 64 - 1 := rfl
  have hcount := (l.rollOver now).count.toNat_lt
  have hunits := units.toNat_lt
  have hallowed := l.allowed.toNat_lt
  have hroom : (maxWord - (l.rollOver now).count).toNat =
      2 ^ 64 - 1 - (l.rollOver now).count.toNat := by
    rw [UInt64.toNat_sub_of_le, hm]
    rw [UInt64.le_iff_toNat_le, hm]
    omega
  unfold tryAcquire
  dsimp only
  split
  · rename_i h
    rw [UInt64.le_iff_toNat_le, hroom, UInt64.le_iff_toNat_le, UInt64.toNat_add,
      allowed_rollOver] at h
    refine iff_of_true rfl ?_
    omega
  · rename_i h
    rw [UInt64.le_iff_toNat_le, hroom, UInt64.le_iff_toNat_le, UInt64.toNat_add,
      allowed_rollOver] at h
    refine iff_of_false Bool.false_ne_true fun hfit => h ?_
    omega

/-- A request adds what it is granted to the units of the period. -/
theorem tryAcquire_fst :
    (l.tryAcquire units now).1 =
      { l.rollOver now with
        count := (l.rollOver now).count + if (l.tryAcquire units now).2 then units else 0 } := by
  unfold tryAcquire
  dsimp only
  split
  · rfl
  · rw [if_neg Bool.false_ne_true, UInt64.add_zero]

/-- What a request is granted fits beside the units of its period, so their sum does not go
around. -/
theorem count_tryAcquire :
    (l.tryAcquire units now).1.count.toNat =
      (if (l.tryAcquire units now).2 then units.toNat else 0) + (l.rollOver now).count.toNat := by
  have hallowed := l.allowed.toNat_lt
  have hcount := (l.rollOver now).count.toNat_lt
  rw [tryAcquire_fst]
  dsimp only
  rw [UInt64.toNat_add]
  by_cases hg : (l.tryAcquire units now).2 = true
  · have hfit := tryAcquire_granted_iff.mp hg
    rw [if_pos hg, if_pos hg]
    omega
  · rw [if_neg hg, if_neg hg, UInt64.toNat_zero]
    omega

theorem deadline_rule (d : Demand) : (l.rule d).deadline = (l.rollOver d.now).deadline := by
  rw [rule, tryAcquire_fst]

theorem count_answer (d : Demand) :
    (l.tryAcquire d.units d.now).1.count.toNat =
      (l.rule d).admitted + if l.deadline ≤ d.now then 0 else l.count.toNat := by
  rw [count_tryAcquire, count_rollOver]
  rfl

/-! ## Deadlines -/

/-- How the deadlines and the requests of a journal lie in time. -/
structure Timeline (first l : RateLimiter) (journal : List Ruling) : Prop where
  period : l.period = first.period
  /-- The current period has the last deadline. -/
  last : l.deadline ∈ Ruling.deadlines first.deadline journal
  le_last : ∀ d ∈ Ruling.deadlines first.deadline journal, d ≤ l.deadline
  spaced : (Ruling.deadlines first.deadline journal).Pairwise fun later earlier =>
    earlier < later ∧ (later = maxWord ∨ earlier.toNat + first.period.toNat ≤ later.toNat)
  /-- A deadline that is not the last was reached by a request. -/
  passed : ∀ d ∈ Ruling.deadlines first.deadline journal, d ≠ l.deadline → ∃ r ∈ journal, d ≤ r.now
  /-- A request comes before the deadline of its period, -/
  mem : ∀ r ∈ journal, r.deadline ∈ Ruling.deadlines first.deadline journal
  now_lt : ∀ r ∈ journal, r.now < r.deadline
  /-- and not before the deadline of any earlier one. -/
  reached : ∀ r ∈ journal, ∀ d ∈ Ruling.deadlines first.deadline journal, d < r.deadline → d ≤ r.now

variable {first : RateLimiter} {journal : List Ruling} {d : Demand}

theorem timeline_nil (first : RateLimiter) : Timeline first first [] where
  period := rfl
  last := List.mem_singleton_self _
  le_last d hd := by rw [List.mem_singleton.mp hd]; exact UInt64.le_refl _
  spaced := List.pairwise_singleton _ _
  passed d hd hne := absurd (List.mem_singleton.mp hd) hne
  mem := by simp
  now_lt := by simp
  reached := by simp

/-- A request at or after the deadline adds a deadline beyond all that there were. -/
theorem Timeline.answer_of_le (h : Timeline first l journal) (hperiod : 0 < first.period.toNat)
    (hdue : l.deadline ≤ d.now) (hnow : d.now < maxWord) :
    Timeline first (l.tryAcquire d.units d.now).1 (l.rule d :: journal) ∧
      l.deadline < (l.rule d).deadline := by
  have hrule : (l.rule d).deadline = l.nextDeadline d.now := by
    rw [deadline_rule, rollOver_of_le hdue]
  obtain ⟨hlt, hback, hspaced⟩ := spaced_nextDeadline (h.period ▸ hperiod) hdue hnow
  rw [h.period] at hspaced
  rw [← hrule] at hlt hback hspaced
  have hdeadlines : Ruling.deadlines first.deadline (l.rule d :: journal) =
      (l.rule d).deadline :: Ruling.deadlines first.deadline journal :=
    if_pos (decide_eq_true hdue)
  -- All earlier deadlines have been reached.
  have hreached : ∀ e ∈ Ruling.deadlines first.deadline journal, e ≤ d.now :=
    fun e he => UInt64.le_trans (h.le_last e he) hdue
  refine ⟨?_, hback⟩
  constructor
  case period => rw [tryAcquire_fst, period_rollOver, h.period]
  case last =>
    rw [hdeadlines]
    exact List.mem_cons_self
  case le_last =>
    rw [hdeadlines]
    intro e he
    rcases List.mem_cons.mp he with rfl | he
    · exact UInt64.le_refl _
    · exact UInt64.le_of_lt (UInt64.lt_of_le_of_lt (h.le_last e he) hback)
  case spaced =>
    rw [hdeadlines]
    refine List.pairwise_cons.mpr ⟨?_, h.spaced⟩
    intro e he
    have hle := h.le_last e he
    refine ⟨UInt64.lt_of_le_of_lt hle hback, hspaced.imp_right ?_⟩
    intro hfar
    exact (Nat.add_le_add_right (UInt64.le_iff_toNat_le.mp hle) _).trans hfar
  case passed =>
    rw [hdeadlines]
    intro e he hne
    rcases List.mem_cons.mp he with rfl | he
    · exact absurd rfl hne
    · exact ⟨l.rule d, List.mem_cons_self, hreached e he⟩
  case mem =>
    rw [hdeadlines]
    intro r hr
    rcases List.mem_cons.mp hr with rfl | hr
    · exact List.mem_cons_self
    · exact List.mem_cons_of_mem _ (h.mem r hr)
  case now_lt =>
    intro r hr
    rcases List.mem_cons.mp hr with rfl | hr
    · exact hlt
    · exact h.now_lt r hr
  case reached =>
    rw [hdeadlines]
    intro r hr e he hlt
    rcases List.mem_cons.mp hr with rfl | hr
    · rcases List.mem_cons.mp he with rfl | he
      · exact absurd hlt (UInt64.lt_irrefl _)
      · exact hreached e he
    · rcases List.mem_cons.mp he with rfl | he
      · have hle := UInt64.le_trans (h.le_last _ (h.mem r hr)) (UInt64.le_of_lt hback)
        exact absurd hlt (UInt64.not_lt.mpr hle)
      · exact h.reached r hr e he hlt

/-- Any other request belongs to the current period. It comes after the requests before it, so what
they reached is reached by it too. -/
theorem Timeline.answer_of_lt (h : Timeline first l journal) (hdue : ¬ l.deadline ≤ d.now)
    (horder : ∀ r ∈ journal, r.now ≤ d.now) :
    Timeline first (l.tryAcquire d.units d.now).1 (l.rule d :: journal) ∧
      (l.rule d).deadline = l.deadline := by
  have hrule : (l.rule d).deadline = l.deadline := by rw [deadline_rule, rollOver_of_lt hdue]
  have hafter : (l.tryAcquire d.units d.now).1.deadline = l.deadline := hrule
  have hdeadlines : Ruling.deadlines first.deadline (l.rule d :: journal) =
      Ruling.deadlines first.deadline journal :=
    if_neg (by simpa [rule] using hdue)
  refine ⟨?_, hrule⟩
  constructor
  case period => rw [tryAcquire_fst, period_rollOver, h.period]
  case last =>
    rw [hdeadlines, hafter]
    exact h.last
  case le_last =>
    rw [hdeadlines, hafter]
    exact h.le_last
  case spaced =>
    rw [hdeadlines]
    exact h.spaced
  case passed =>
    rw [hdeadlines, hafter]
    intro e he hne
    obtain ⟨r, hr, hle⟩ := h.passed e he hne
    exact ⟨r, List.mem_cons_of_mem _ hr, hle⟩
  case mem =>
    rw [hdeadlines]
    intro r hr
    rcases List.mem_cons.mp hr with rfl | hr
    · rw [hrule]
      exact h.last
    · exact h.mem r hr
  case now_lt =>
    intro r hr
    rcases List.mem_cons.mp hr with rfl | hr
    · rw [hrule]
      exact UInt64.not_le.mp hdue
    · exact h.now_lt r hr
  case reached =>
    rw [hdeadlines]
    intro r hr e he hlt
    rcases List.mem_cons.mp hr with rfl | hr
    · rw [hrule] at hlt
      obtain ⟨r, hr, hle⟩ := h.passed e he (UInt64.ne_of_lt hlt)
      exact UInt64.le_trans hle (horder r hr)
    · exact h.reached r hr e he hlt

/-- The units of the current period are those of the requests since the last rollover, and no period
admits more than is allowed. -/
structure Counted (first l : RateLimiter) (journal : List Ruling) : Prop where
  allowed : l.allowed = first.allowed
  count : l.count.toNat = Ruling.sinceRollover journal
  current : Ruling.total (journal.filter (·.deadline = l.deadline)) = l.count.toNat
  total_le : ∀ e, Ruling.total (journal.filter (·.deadline = e)) ≤ first.allowed.toNat

theorem counted_nil (first : RateLimiter) (hcount : first.count = 0) : Counted first first [] where
  allowed := rfl
  count := by rw [hcount]; rfl
  current := by rw [hcount]; rfl
  total_le _ := Nat.zero_le _

theorem Counted.granted_iff (h : Counted first l journal) (units now : UInt64) :
    (l.tryAcquire units now).2 = true ↔
      units.toNat + (if l.deadline ≤ now then 0 else Ruling.sinceRollover journal) ≤
        first.allowed.toNat := by
  rw [tryAcquire_granted_iff, count_rollOver, h.allowed, h.count]

theorem Counted.count_tryAcquire_le (h : Counted first l journal) :
    (l.tryAcquire units now).1.count.toNat ≤ first.allowed.toNat := by
  rw [count_tryAcquire]
  by_cases hg : (l.tryAcquire units now).2 = true
  · rw [if_pos hg, ← h.allowed]
    exact tryAcquire_granted_iff.mp hg
  · rw [if_neg hg, Nat.zero_add, count_rollOver]
    split
    · exact Nat.zero_le _
    · rw [← h.current]
      exact h.total_le _

/-- A request is counted to the period whose deadline it carries. -/
theorem Counted.answer (h : Counted first l journal)
    (hperiod : if l.deadline ≤ d.now then ∀ r ∈ journal, r.deadline ≠ (l.rule d).deadline
      else (l.rule d).deadline = l.deadline) :
    Counted first (l.tryAcquire d.units d.now).1 (l.rule d :: journal) := by
  -- Before this request, its period has admitted nothing if it is new.
  have hbefore : Ruling.total (journal.filter (·.deadline = (l.rule d).deadline)) =
      if l.deadline ≤ d.now then 0 else l.count.toNat := by
    split_ifs at hperiod ⊢ with hdue
    · have hnone : journal.filter (·.deadline = (l.rule d).deadline) = [] := by
        rw [List.filter_eq_nil_iff]
        simpa using hperiod
      rw [hnone]
      rfl
    · rw [hperiod]
      exact h.current
  have htotal : Ruling.total ((l.rule d :: journal).filter (·.deadline = (l.rule d).deadline)) =
      (l.tryAcquire d.units d.now).1.count.toNat := by
    rw [List.filter_cons_of_pos (by simp), Ruling.total_cons, hbefore, count_answer]
  constructor
  case allowed => rw [tryAcquire_fst, allowed_rollOver, h.allowed]
  case count =>
    rw [count_answer, h.count, Ruling.sinceRollover]
    simp [rule]
  case current => exact htotal
  case total_le =>
    intro e
    by_cases he : (l.rule d).deadline = e
    · subst he
      rw [htotal]
      exact h.count_tryAcquire_le
    · rw [List.filter_cons_of_neg (by simpa using he)]
      exact h.total_le e

/-- **Every journal is dated and counted**, if its requests are made in order and before the clock
ends. -/
theorem kept_replay (hperiod : 0 < first.period.toNat) (hcount : first.count = 0)
    {demands : List Demand}
    (horder : demands.Pairwise fun a b => a.now ≤ b.now) (hend : ∀ d ∈ demands, d.now < maxWord) :
    Timeline first (first.replay demands).1 (first.replay demands).2 ∧
      Counted first (first.replay demands).1 (first.replay demands).2 ∧
      ∀ r ∈ (first.replay demands).2, r.toDemand ∈ demands := by
  induction demands using List.reverseRecOn with
  | nil => exact ⟨timeline_nil first, counted_nil first hcount, by simp [replay]⟩
  | append_singleton before d ih =>
    obtain ⟨hbefore, -, hlast⟩ := List.pairwise_append.mp horder
    obtain ⟨htime, hcounted, hmem⟩ :=
      ih hbefore fun e he => hend e (List.mem_append_left _ he)
    have hnow : d.now < maxWord := hend d (List.mem_append_right _ (List.mem_singleton_self d))
    rw [replay_snoc]
    refine ⟨?_, ?_, ?_⟩
    · by_cases hdue : (first.replay before).1.deadline ≤ d.now
      · exact (htime.answer_of_le hperiod hdue hnow).1
      · refine (htime.answer_of_lt hdue ?_).1
        intro r hr
        exact hlast r.toDemand (hmem r hr) d (List.mem_singleton_self d)
    · refine hcounted.answer ?_
      split
      · rename_i hdue
        obtain ⟨-, hback⟩ := htime.answer_of_le hperiod hdue hnow
        intro r hr
        exact UInt64.ne_of_lt (UInt64.lt_of_le_of_lt (htime.le_last _ (htime.mem r hr)) hback)
      · rename_i hdue
        rw [deadline_rule, rollOver_of_lt hdue]
    · intro r hr
      rcases List.mem_cons.mp hr with rfl | hr
      · exact List.mem_append_right _ (List.mem_singleton_self d)
      · exact List.mem_append_left _ (hmem r hr)

/-! ## Spans of time -/

/-- What is asked for between two deadlines with no other in between belongs to the later one. -/
theorem Timeline.deadline_eq (h : Timeline first l journal) {later earlier : List UInt64}
    {e e' : UInt64}
    (hsplit : Ruling.deadlines first.deadline journal = later ++ e' :: e :: earlier) {r : Ruling}
    (hr : r ∈ journal) (hge : e ≤ r.now) (hlt : r.now < e') : r.deadline = e' := by
  have hspaced := h.spaced
  have hmem := h.mem r hr
  rw [hsplit] at hspaced hmem
  obtain ⟨-, hbehind, hlater⟩ := List.pairwise_append.mp hspaced
  obtain ⟨-, hearlier⟩ := List.pairwise_cons.mp hbehind
  rcases List.mem_append.mp hmem with hd | hd
  · -- A later period starts when this span has ended.
    have hbeyond := (hlater r.deadline hd e' List.mem_cons_self).1
    have hreached := h.reached r hr e' (hsplit ▸ by simp) hbeyond
    exact absurd hlt (UInt64.not_lt.mpr hreached)
  · rcases List.mem_cons.mp hd with hd | hd
    · exact hd
    · -- An earlier period has ended before this span starts.
      have hle : r.deadline ≤ e := by
        rcases List.mem_cons.mp hd with hd | hd
        · rw [hd]
          exact UInt64.le_refl _
        · exact UInt64.le_of_lt ((List.pairwise_cons.mp hearlier).1 _ hd).1
      exact absurd (h.now_lt r hr) (UInt64.not_lt.mpr (UInt64.le_trans hle hge))

/-- What is asked for before the first deadline belongs to the first period. -/
theorem Timeline.deadline_eq_first (h : Timeline first l journal) {r : Ruling} (hr : r ∈ journal)
    (hlt : r.now < first.deadline) : r.deadline = first.deadline := by
  obtain ⟨front, hfront⟩ := Ruling.exists_deadlines_eq first.deadline journal
  have hspaced := h.spaced
  have hmem := h.mem r hr
  rw [hfront] at hspaced hmem
  obtain ⟨-, -, hlater⟩ := List.pairwise_append.mp hspaced
  rcases List.mem_append.mp hmem with hd | hd
  · have hbeyond := (hlater r.deadline hd _ (List.mem_singleton_self _)).1
    have hreached := h.reached r hr _ (hfront ▸ by simp) hbeyond
    exact absurd hlt (UInt64.not_lt.mpr hreached)
  · exact List.mem_singleton.mp hd

theorem Timeline.apart (h : Timeline first l journal) {e e' : UInt64}
    (he : e ∈ Ruling.deadlines first.deadline journal)
    (he' : e' ∈ Ruling.deadlines first.deadline journal) (hlt : e < e') :
    e' = maxWord ∨ e.toNat + first.period.toNat ≤ e'.toNat := by
  obtain ⟨later, earlier, hsplit⟩ := List.append_of_mem he'
  have hspaced := h.spaced
  rw [hsplit] at hspaced he
  obtain ⟨-, hbehind, hlater⟩ := List.pairwise_append.mp hspaced
  rcases List.mem_append.mp he with he | he
  · have hback := (hlater e he e' List.mem_cons_self).1
    exact absurd hlt (UInt64.not_lt.mpr (UInt64.le_of_lt hback))
  · rcases List.mem_cons.mp he with rfl | he
    · exact absurd hlt (UInt64.lt_irrefl _)
    · exact ((List.pairwise_cons.mp hbehind).1 e he).2

/-- Requests of three periods do not come within the length of one: the last of them comes after the
second deadline, which is a period after the first, and that is still to come at the first
request. -/
theorem Timeline.far_of_three (h : Timeline first l journal) (hend : ∀ r ∈ journal, r.now < maxWord)
    {r₁ r₂ r₃ : Ruling} (h₁ : r₁ ∈ journal) (h₂ : r₂ ∈ journal) (h₃ : r₃ ∈ journal)
    (h₁₂ : r₁.deadline < r₂.deadline) (h₂₃ : r₂.deadline < r₃.deadline) :
    r₁.now.toNat + first.period.toNat < r₃.now.toNat := by
  have hreached : r₂.deadline ≤ r₃.now := h.reached r₃ h₃ _ (h.mem r₂ h₂) h₂₃
  have hlast : r₂.deadline < maxWord := UInt64.lt_of_le_of_lt hreached (hend r₃ h₃)
  have hapart := (h.apart (h.mem r₁ h₁) (h.mem r₂ h₂) h₁₂).resolve_left (UInt64.ne_of_lt hlast)
  have hnow := h.now_lt r₁ h₁
  rw [UInt64.le_iff_toNat_le] at hreached
  rw [UInt64.lt_iff_toNat_lt] at hnow
  omega

/-- So the requests within the length of a period are of two periods at most. -/
theorem Timeline.exists_two (h : Timeline first l journal) (hend : ∀ r ∈ journal, r.now < maxWord)
    {a b : Nat} (hab : b ≤ a + first.period.toNat) :
    ∃ e e', ∀ r ∈ journal, a ≤ r.now.toNat ∧ r.now.toNat < b → r.deadline = e ∨
      r.deadline = e' := by
  by_cases hpair : ∃ r₁ ∈ journal, ∃ r₂ ∈ journal, (a ≤ r₁.now.toNat ∧ r₁.now.toNat < b) ∧
      (a ≤ r₂.now.toNat ∧ r₂.now.toNat < b) ∧ r₁.deadline ≠ r₂.deadline
  · obtain ⟨r₁, h₁, r₂, h₂, hr₁, hr₂, hne⟩ := hpair
    refine ⟨r₁.deadline, r₂.deadline, fun r hr hrange => ?_⟩
    by_contra hother
    obtain ⟨hne₁, hne₂⟩ := not_or.mp hother
    -- In whichever order the three deadlines lie, the outer two requests are too far apart.
    have hclose {s₁ s₂ s₃ : Ruling} (hs₁ : s₁ ∈ journal) (hs₂ : s₂ ∈ journal) (hs₃ : s₃ ∈ journal)
        (hge : a ≤ s₁.now.toNat) (hlt : s₃.now.toNat < b) (h₁₂ : s₁.deadline < s₂.deadline) :
        ¬ s₂.deadline < s₃.deadline := by
      intro h₂₃
      have hfar := h.far_of_three hend hs₁ hs₂ hs₃ h₁₂ h₂₃
      omega
    rcases UInt64.lt_or_lt_of_ne hne with h₁₂ | h₂₁
    · rcases UInt64.lt_or_lt_of_ne hne₁ with hlt | hgt
      · exact hclose hr h₁ h₂ hrange.1 hr₂.2 hlt h₁₂
      · rcases UInt64.lt_or_lt_of_ne hne₂ with hlt' | hgt'
        · exact hclose h₁ hr h₂ hr₁.1 hr₂.2 hgt hlt'
        · exact hclose h₁ h₂ hr hr₁.1 hrange.2 h₁₂ hgt'
    · rcases UInt64.lt_or_lt_of_ne hne₂ with hlt | hgt
      · exact hclose hr h₂ h₁ hrange.1 hr₁.2 hlt h₂₁
      · rcases UInt64.lt_or_lt_of_ne hne₁ with hlt' | hgt'
        · exact hclose h₂ hr h₁ hr₂.1 hr₁.2 hgt hlt'
        · exact hclose h₂ h₁ hr hr₂.1 hrange.2 h₂₁ hgt'
  · by_cases hsome : ∃ r ∈ journal, a ≤ r.now.toNat ∧ r.now.toNat < b
    · obtain ⟨r₀, h₀, hr₀⟩ := hsome
      refine ⟨r₀.deadline, r₀.deadline, fun r hr hrange => Or.inl ?_⟩
      by_contra hne
      exact hpair ⟨r, hr, r₀, h₀, hrange, hr₀, hne⟩
    · exact ⟨0, 0, fun r hr hrange => absurd ⟨r, hr, hrange⟩ hsome⟩

/-! ## What is admitted -/

/-- What is asked for at certain times is admitted at most once over if it all belongs to one
period. -/
theorem Counted.admittedWithin_le (h : Counted first l journal) {a b : Nat} {e : UInt64}
    (hone : ∀ r ∈ journal, a ≤ r.now.toNat ∧ r.now.toNat < b → r.deadline = e) :
    Ruling.admittedWithin a b journal ≤ first.allowed.toNat := by
  refine (Ruling.total_filter_le_of_imp ?_).trans (h.total_le e)
  intro r hr hrange
  exact decide_eq_true (hone r hr (of_decide_eq_true hrange))

/-- And at most twice over if it belongs to two. -/
theorem Counted.admittedWithin_le_two (h : Counted first l journal) {a b : Nat} {d e : UInt64}
    (htwo : ∀ r ∈ journal, a ≤ r.now.toNat ∧ r.now.toNat < b → r.deadline = d ∨ r.deadline = e) :
    Ruling.admittedWithin a b journal ≤ 2 * first.allowed.toNat := by
  have heither : Ruling.admittedWithin a b journal ≤
      Ruling.total (journal.filter fun r => decide (r.deadline = d) ||
        decide (r.deadline = e)) := by
    refine Ruling.total_filter_le_of_imp ?_
    intro r hr hrange
    simpa using htwo r hr (of_decide_eq_true hrange)
  have hboth := Ruling.total_filter_or_le (·.deadline = d) (·.deadline = e) journal
  have hd := h.total_le d
  have he := h.total_le e
  omega

theorem eq_of_make {allowed : UInt64} {period : Duration} {start : UInt64}
    (h : make allowed period start = .ok first) :
    0 < period.toWord.toNat ∧
      first = ⟨allowed, period.toWord, 0, addSat start period.toWord⟩ := by
  unfold make at h
  by_cases hallowed : allowed ≠ 0
  · rw [require, if_pos hallowed] at h
    by_cases hperiod : period.toWord ≠ 0
    · rw [require, if_pos hperiod] at h
      refine ⟨?_, (Except.ok.inj h).symm⟩
      rw [Ne, ← UInt64.toNat_inj] at hperiod
      exact Nat.pos_of_ne_zero hperiod
    · rw [require, if_neg hperiod] at h
      cases h
  · rw [require, if_neg hallowed] at h
    cases h

/-- **What a rate limiter admits.** The requests are made in order, at any time before the clock
ends, be it before the limiter was made. Each is admitted if and only if its units fit beside those
admitted since the last rollover, which may be due at this request; after it the deadline lies
ahead, and never before where it was. What is admitted between two deadlines with no other in
between, and before the first one, is at most what is allowed, and in any time of the length of a
period it is at most twice that. -/
theorem admissions_bounded {allowed : UInt64} {period : Duration} {start : UInt64}
    (hmake : make allowed period start = .ok first) {demands : List Demand}
    (horder : demands.Pairwise fun a b => a.now ≤ b.now) (hend : ∀ d ∈ demands, d.now < maxWord) :
    (∀ (before after : List Demand) (d : Demand), demands = before ++ d :: after →
      let (l, journal) := first.replay before
      let (l', granted) := l.tryAcquire d.units d.now
      (granted = true ↔
        d.units.toNat + (if l.deadline ≤ d.now then 0 else Ruling.sinceRollover journal) ≤
          allowed.toNat) ∧
        d.now < l'.deadline ∧ l.deadline ≤ l'.deadline) ∧
      let journal := (first.replay demands).2
      Ruling.admittedWithin 0 first.deadline.toNat journal ≤ allowed.toNat ∧
        (∀ (later earlier : List UInt64) (e e' : UInt64),
          Ruling.deadlines first.deadline journal = later ++ e' :: e :: earlier →
            Ruling.admittedWithin e.toNat e'.toNat journal ≤ allowed.toNat) ∧
        ∀ a, Ruling.admittedWithin a (a + period.nanos) journal ≤ 2 * allowed.toNat := by
  obtain ⟨hperiod, hfirst⟩ := eq_of_make hmake
  have hallowed : first.allowed = allowed := by rw [hfirst]
  have hlength : first.period = period.toWord := by rw [hfirst]
  have hcount : first.count = 0 := by rw [hfirst]
  rw [← hlength] at hperiod
  obtain ⟨htime, hcounted, hmem⟩ := kept_replay hperiod hcount horder hend
  have hnow : ∀ r ∈ (first.replay demands).2, r.now < maxWord :=
    fun r hr => hend r.toDemand (hmem r hr)
  rw [← hallowed]
  refine ⟨?_, ?_, ?_, ?_⟩
  · rintro before after d rfl
    obtain ⟨hbefore, -, -⟩ := List.pairwise_append.mp horder
    obtain ⟨htime', hcounted', -⟩ :=
      kept_replay hperiod hcount hbefore fun e he => hend e (List.mem_append_left _ he)
    have hdnow : d.now < maxWord := hend d (by simp)
    refine ⟨hcounted'.granted_iff d.units d.now, ?_⟩
    change d.now < (tryAcquire _ d.units d.now).1.deadline ∧
      _ ≤ (tryAcquire _ d.units d.now).1.deadline
    rw [tryAcquire_fst]
    exact lt_deadline_rollOver (htime'.period ▸ hperiod) hdnow
  · refine hcounted.admittedWithin_le (e := first.deadline) ?_
    rintro r hr ⟨-, hlt⟩
    exact htime.deadline_eq_first hr (UInt64.lt_iff_toNat_lt.mpr hlt)
  · intro later earlier e e' hsplit
    refine hcounted.admittedWithin_le (e := e') ?_
    rintro r hr ⟨hge, hlt⟩
    exact htime.deadline_eq hsplit hr (UInt64.le_iff_toNat_le.mpr hge)
      (UInt64.lt_iff_toNat_lt.mpr hlt)
  · intro a
    obtain ⟨e, e', htwo⟩ := htime.exists_two hnow (Nat.le_refl (a + first.period.toNat))
    refine hcounted.admittedWithin_le_two (d := e) (e := e') ?_
    rintro r hr ⟨hge, hlt⟩
    refine htwo r hr ⟨hge, ?_⟩
    -- A period that does not fit a word is longer than the clock goes.
    have hword := period.toWord_toNat
    have hclock := UInt64.lt_iff_toNat_lt.mp (hnow r hr)
    have hm : maxWord.toNat = 2 ^ 64 - 1 := rfl
    rw [hlength]
    omega

/-- Five units in ten: all five are admitted at the end of the first period and all five again right
after it, ten in ten. The request at 27 starts its period late and keeps the grid, the one at 95
comes after a long rest and moves it. -/
theorem admissions_bounded_late :
    let demands : List Demand := [⟨5, 9⟩, ⟨5, 10⟩, ⟨1, 12⟩, ⟨4, 27⟩, ⟨1, 95⟩]
    ∃ first, make 5 ⟨10⟩ 0 = .ok first ∧
      Ruling.deadlines first.deadline (first.replay demands).2 = [105, 30, 20, 10] ∧
      Ruling.admittedWithin 9 19 (first.replay demands).2 = 10 ∧
      Ruling.admittedWithin 20 30 (first.replay demands).2 ≤ 5 ∧
      ∀ a, Ruling.admittedWithin a (a + 10) (first.replay demands).2 ≤ 10 := by
  intro demands
  have hmake : make 5 ⟨10⟩ 0 = .ok ⟨5, 10, 0, 10⟩ := rfl
  have horder : demands.Pairwise fun a b => a.now ≤ b.now := by decide
  have hend : ∀ d ∈ demands, d.now < maxWord := by decide
  obtain ⟨-, -, hspans, hwithin⟩ := admissions_bounded hmake horder hend
  exact ⟨⟨5, 10, 0, 10⟩, rfl, by decide, by decide, hspans [105] [10] 20 30 (by decide), hwithin⟩

end RateLimiter
end Admission
