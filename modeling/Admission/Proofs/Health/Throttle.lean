import Admission.Health
import Admission.Outcome.Vocabulary
import Admission.Proofs.Word
import Mathlib.Data.List.Induction

/-!
# Health that is added up only now and then

A health checker keeps the snapshot that it made last, and the time of it. Whatever the clock does
and whoever forces a new snapshot, the two belong together: the snapshot is the health of the counts
as they stood then. It is handed out until the refresh interval has passed since, so it is never
older than that, and looks at the health add up at most once in each interval.

## Main definitions

* `HealthCall`, `HealthMonitor.serve`: what is asked of a checker and added to its counts, and what
  this leaves
* `Reading`, `HealthMonitor.readings`: the counts that a call adds up, and those of a run
* `HealthMonitor.Tells`: the checker keeps what was added up last

## Main results

* `HealthMonitor.tells_after`: this holds after any run
* `HealthMonitor.length_readings_le`: how often a run of looks adds up
* `HealthMonitor.health_throttled`: what any look tells, how old that is, and how often it is made
-/

namespace Admission

/-- What is asked of a health checker, and what is added to its counts between. -/
inductive HealthCall (O : Type) where
  | health (now : UInt64)
  | refresh (now : UInt64)
  | add (key : O) (delta now : UInt64)
deriving DecidableEq, Repr

namespace HealthCall

variable {O : Type}

/-- The time of a call. -/
def now : HealthCall O → UInt64
  | health now => now
  | refresh now => now
  | add _ _ now => now

/-- A call that does not force a new snapshot, and looks at the health between two times if at
all. -/
def LooksWithin (first last : Nat) : HealthCall O → Prop
  | health now => first ≤ now.toNat ∧ now.toNat ≤ last
  | refresh _ => False
  | add _ _ _ => True

end HealthCall

/-- The counts that were added up at a time. -/
structure Reading (O : Type) [Outcome O] where
  time : UInt64
  counts : RollingCounts O

/-- A health checker with the counts that it looks at. -/
structure HealthMonitor (O : Type) [Outcome O] where
  checker : HealthChecker
  counts : RollingCounts O

namespace HealthMonitor

variable {O : Type} [Outcome O]

/-- A checker that has not looked yet. -/
def start (trailing refresh : Duration) (counts : RollingCounts O) : HealthMonitor O :=
  ⟨.make trailing refresh, counts⟩

/-- The snapshot that a look at a time gets. -/
def look (m : HealthMonitor O) (now : UInt64) : HealthSnapshot := (m.checker.health m.counts now).2

/-- Checker and counts after a call. -/
def serve (m : HealthMonitor O) : HealthCall O → HealthMonitor O
  | .health now => { m with checker := (m.checker.health m.counts now).1 }
  | .refresh now => { m with checker := (m.checker.refresh m.counts now).1 }
  | .add key delta now => { m with counts := m.counts.add key delta now }

/-- Checker and counts after some calls. -/
def after (m : HealthMonitor O) (calls : List (HealthCall O)) : HealthMonitor O :=
  calls.foldl serve m

/-- What a call adds up, if it does; the checker counts how often that happens. -/
def reading? (m : HealthMonitor O) (c : HealthCall O) : Option (Reading O) :=
  if (m.serve c).checker.aggregations = m.checker.aggregations then none else some ⟨c.now, m.counts⟩

/-- What is added up in a run, the earliest first. -/
def readings : HealthMonitor O → List (HealthCall O) → List (Reading O)
  | _, [] => []
  | m, c :: rest => (m.reading? c).toList ++ readings (m.serve c) rest

variable {m : HealthMonitor O} {c : HealthCall O} {now : UInt64}

theorem after_append (m : HealthMonitor O) (calls more : List (HealthCall O)) :
    m.after (calls ++ more) = (m.after calls).after more := List.foldl_append

theorem readings_append (m : HealthMonitor O) (calls more : List (HealthCall O)) :
    m.readings (calls ++ more) = m.readings calls ++ (m.after calls).readings more := by
  induction calls generalizing m with
  | nil => rfl
  | cons c rest ih =>
    rw [List.cons_append, readings, ih, readings, List.append_assoc]
    rfl

theorem readings_snoc (m : HealthMonitor O) (calls : List (HealthCall O)) (c : HealthCall O) :
    m.readings (calls ++ [c]) = m.readings calls ++ ((m.after calls).reading? c).toList := by
  rw [readings_append, readings, readings, List.append_nil]

/-! ## One call -/

/-- A look that is due is a new snapshot. -/
theorem serve_of_isDue (h : m.checker.isDue now = true) :
    m.serve (.health now) = m.serve (.refresh now) := by
  rw [serve, serve, HealthChecker.health, if_pos h]

/-- A look that is not due leaves all as it is. -/
theorem serve_of_not_isDue (h : ¬ m.checker.isDue now = true) : m.serve (.health now) = m := by
  rw [serve, HealthChecker.health, if_neg h]

theorem reading?_refresh : m.reading? (.refresh now) = some ⟨now, m.counts⟩ :=
  if_neg (by simp [serve, HealthChecker.refresh])

theorem reading?_add (key : O) (delta : UInt64) :
    m.reading? (.add key delta now) = none := if_pos rfl

theorem reading?_of_isDue (h : m.checker.isDue now = true) :
    m.reading? (.health now) = some ⟨now, m.counts⟩ := by
  rw [reading?, serve_of_isDue h]
  exact reading?_refresh

theorem reading?_of_not_isDue (h : ¬ m.checker.isDue now = true) :
    m.reading? (.health now) = none := by
  rw [reading?, serve_of_not_isDue h, if_pos rfl]

/-- The checker counts what it adds up. -/
theorem aggregations_serve (m : HealthMonitor O) (c : HealthCall O) :
    (m.serve c).checker.aggregations =
      m.checker.aggregations + UInt64.ofNat (m.reading? c).toList.length := by
  cases c with
  | health now =>
    by_cases h : m.checker.isDue now = true
    · rw [serve_of_isDue h, reading?_of_isDue h]
      rfl
    · rw [serve_of_not_isDue h, reading?_of_not_isDue h]
      exact (UInt64.add_zero _).symm
  | refresh now =>
    rw [reading?_refresh]
    rfl
  | add key delta now =>
    rw [reading?_add]
    exact (UInt64.add_zero _).symm

theorem aggregations_after (m : HealthMonitor O) (calls : List (HealthCall O)) :
    (m.after calls).checker.aggregations =
      m.checker.aggregations + UInt64.ofNat (m.readings calls).length := by
  induction calls generalizing m with
  | nil => exact (UInt64.add_zero _).symm
  | cons c rest ih =>
    show ((m.serve c).after rest).checker.aggregations = _
    rw [ih, aggregations_serve, readings, List.length_append, UInt64.ofNat_add, UInt64.add_assoc]

/-! ## What the checker keeps -/

/-- The checker looks over a trailing span and refreshes after an interval, and it keeps what was
added up last, if anything was. -/
structure Tells (span interval : Duration) (m : HealthMonitor O)
    (last : Option (Reading O)) : Prop where
  trailing : m.checker.trailing = span
  refresh : m.checker.refreshInterval = interval.toWord
  never : last = none → m.checker.lastTaken = maxWord
  kept : ∀ r ∈ last, r.time < maxWord ∧ m.checker.lastTaken = r.time ∧
    m.checker.cached = r.counts.health span r.time

section Tells

variable {span interval : Duration} {last : Option (Reading O)} {r : Reading O}

theorem tells_start (counts : RollingCounts O) :
    (start span interval counts).Tells span interval none :=
  ⟨rfl, rfl, fun _ => rfl, fun _ h => nomatch h⟩

/-- A look is due if nothing was added up yet, or if the interval has passed since. -/
theorem Tells.isDue_iff (h : m.Tells span interval last) (hnow : now < maxWord) :
    m.checker.isDue now = true ↔ ∀ r ∈ last, interval.nanos ≤ now.toNat - r.time.toNat := by
  have hm : maxWord.toNat = 2 ^ 64 - 1 := rfl
  have hnow := UInt64.lt_iff_toNat_lt.mp hnow
  rw [HealthChecker.isDue, Bool.or_eq_true, beq_iff_eq, decide_eq_true_eq]
  cases last with
  | none => exact iff_of_true (Or.inl (h.never rfl)) fun _ h => nomatch h
  | some r =>
    obtain ⟨htime, hlast, -⟩ := h.kept r rfl
    have hne : ¬ r.time = maxWord := UInt64.ne_of_lt htime
    simp only [Option.mem_some_iff, forall_eq', hlast, hne, false_or, h.refresh,
      UInt64.le_iff_toNat_le, subSat_toNat, Duration.toWord_toNat]
    -- An interval that is too long for a word never passes.
    omega

/-- A new snapshot is kept. -/
theorem Tells.refreshed (h : m.Tells span interval last) (hnow : now < maxWord) :
    (m.serve (.refresh now)).Tells span interval (some ⟨now, m.counts⟩) where
  trailing := h.trailing
  refresh := h.refresh
  never := fun hnone => nomatch hnone
  kept := by
    rintro r ⟨⟩
    exact ⟨hnow, rfl, h.trailing ▸ rfl⟩

/-- After any call the checker keeps what was added up last. -/
theorem Tells.serve (h : m.Tells span interval last) (hc : c.now < maxWord) :
    (m.serve c).Tells span interval (m.reading? c <|> last) := by
  cases c with
  | health now =>
    by_cases hdue : m.checker.isDue now = true
    · rw [serve_of_isDue hdue, reading?_of_isDue hdue]
      exact h.refreshed hc
    · rw [serve_of_not_isDue hdue, reading?_of_not_isDue hdue]
      exact h
  | refresh now =>
    rw [reading?_refresh]
    exact h.refreshed hc
  | add key delta now =>
    rw [reading?_add]
    exact ⟨h.trailing, h.refresh, h.never, h.kept⟩

/-- **After any run the checker keeps what was added up last**, and when that was. -/
theorem tells_after (counts : RollingCounts O) {calls : List (HealthCall O)}
    (hcalls : ∀ c ∈ calls, c.now < maxWord) :
    ((start span interval counts).after calls).Tells span interval
      ((start span interval counts).readings calls).getLast? := by
  induction calls using List.reverseRecOn with
  | nil => exact tells_start counts
  | append_singleton calls c ih =>
    obtain ⟨hcalls, hc⟩ := List.forall_mem_append.mp hcalls
    have hserved := (ih hcalls).serve (hc c List.mem_cons_self)
    rw [after_append, readings_snoc, List.getLast?_append]
    cases hr : ((start span interval counts).after calls).reading? c with
    | none =>
      rw [hr] at hserved
      exact hserved
    | some r =>
      rw [hr] at hserved
      exact hserved

/-- What a look gets is the health of the counts that were added up last: by this look, or less than
the interval ago. -/
theorem Tells.look_eq (h : m.Tells span interval last) (hnow : now < maxWord) :
    ∃ r, (m.reading? (.health now) <|> last) = some r ∧ m.look now = r.counts.health span r.time ∧
      (m.reading? (.health now) = some r ∨ now.toNat - r.time.toNat < interval.nanos) := by
  by_cases hdue : m.checker.isDue now = true
  · refine ⟨⟨now, m.counts⟩,
      by rw [reading?_of_isDue hdue]; rfl, ?_, Or.inl (reading?_of_isDue hdue)⟩
    rw [look, HealthChecker.health, if_pos hdue, ← h.trailing]
    rfl
  · cases last with
    | none => exact absurd ((h.isDue_iff hnow).mpr fun _ h => nomatch h) hdue
    | some r =>
      refine ⟨r, by rw [reading?_of_not_isDue hdue]; rfl, ?_, Or.inr ?_⟩
      · rw [look, HealthChecker.health, if_neg hdue]
        exact (h.kept r rfl).2.2
      · rw [h.isDue_iff hnow] at hdue
        simpa using hdue

end Tells

/-! ## How often it is added up -/

section Rate

variable {span interval : Duration} {first final : Nat} {calls : List (HealthCall O)}
    {last : Option (Reading O)}

/-- Of the calls that do not force a new snapshot only a look that is due adds up. -/
theorem reading?_of_looksWithin (h : c.LooksWithin first final) : m.reading? c = none ∨
    m.reading? c = some ⟨c.now, m.counts⟩ ∧ m.checker.isDue c.now = true ∧
      first ≤ c.now.toNat ∧ c.now.toNat ≤ final := by
  cases c with
  | health now =>
    by_cases hdue : m.checker.isDue now = true
    · exact Or.inr ⟨reading?_of_isDue hdue, hdue, h⟩
    · exact Or.inl (reading?_of_not_isDue hdue)
  | refresh now => exact absurd h id
  | add key delta now => exact Or.inl (reading?_add key delta)

theorem length_readings_cons {r : Option (Reading O)} (h : m.reading? c = r) :
    (m.readings (c :: calls)).length = r.toList.length + ((m.serve c).readings calls).length := by
  rw [readings, List.length_append, h]

/-- Looks that follow a snapshot add up at most once in each interval after it. -/
theorem Tells.add_mul_length_le (hinterval : 0 < interval.nanos) {r : Reading O}
    (h : m.Tells span interval (some r))
    (hcalls : ∀ c ∈ calls, c.LooksWithin first final ∧ c.now < maxWord)
    (hr : r.time.toNat ≤ final) :
    r.time.toNat + (m.readings calls).length * interval.nanos ≤ final := by
  induction calls generalizing m r with
  | nil =>
    rw [readings, List.length_nil, Nat.zero_mul]
    exact hr
  | cons c rest ih =>
    obtain ⟨⟨hlooks, hc⟩, hrest⟩ := List.forall_mem_cons.mp hcalls
    have hserved := h.serve hc
    rcases reading?_of_looksWithin (m := m) hlooks with hnone | ⟨hsome, hdue, -, hfinal⟩
    · rw [hnone] at hserved
      have hlater := ih hserved hrest hr
      rw [length_readings_cons hnone, Option.toList_none, List.length_nil, Nat.zero_add]
      exact hlater
    · rw [hsome] at hserved
      have hlater : c.now.toNat + _ ≤ final := ih hserved hrest hfinal
      have hpassed := (h.isDue_iff hc).mp hdue r rfl
      rw [length_readings_cons hsome, Option.toList_some, List.length_singleton,
        Nat.add_mul, Nat.one_mul]
      omega

/-- **Looks between two times add up at most once more than there are intervals between**, whatever
was kept before. -/
theorem Tells.length_readings_le (hinterval : 0 < interval.nanos) (h : m.Tells span interval last)
    (hcalls : ∀ c ∈ calls, c.LooksWithin first final ∧ c.now < maxWord) :
    (m.readings calls).length ≤ 1 + (final - first) / interval.nanos := by
  induction calls generalizing m last with
  | nil => exact Nat.zero_le _
  | cons c rest ih =>
    obtain ⟨⟨hlooks, hc⟩, hrest⟩ := List.forall_mem_cons.mp hcalls
    have hserved := h.serve hc
    rcases reading?_of_looksWithin (m := m) hlooks with hnone | ⟨hsome, -, hfirst, hfinal⟩
    · rw [hnone] at hserved
      rw [length_readings_cons hnone, Option.toList_none, List.length_nil, Nat.zero_add]
      exact ih hserved hrest
    · -- This is the first snapshot of the run, and those that follow are an interval apart.
      rw [hsome] at hserved
      have hlater : c.now.toNat + _ ≤ final := hserved.add_mul_length_le hinterval hrest hfinal
      rw [length_readings_cons hsome, Option.toList_some, List.length_singleton]
      refine Nat.add_le_add_left ((Nat.le_div_iff_mul_le hinterval).mpr ?_) 1
      omega

end Rate

/-- **A look tells the health of the counts as they were added up last**: by the look itself, or
less than the interval ago. It adds them up only if the interval has passed since that was done
last, so looks between two times do so at most once more than there are intervals between. -/
theorem health_throttled (span interval : Duration) (counts : RollingCounts O)
    {calls : List (HealthCall O)}
    (hcalls : ∀ c ∈ calls, c.now < maxWord) :
    (∀ now < maxWord, ∃ r,
      ((start span interval counts).readings (calls ++ [.health now])).getLast? = some r ∧
      ((start span interval counts).after calls).look now = r.counts.health span r.time ∧
      (((start span interval counts).after calls).reading? (.health now) = some r ∨
        now.toNat - r.time.toNat < interval.nanos)) ∧
    (∀ now < maxWord, (((start span interval counts).after calls).reading? (.health now)).isSome →
      ∀ r ∈ ((start span interval counts).readings calls).getLast?,
        interval.nanos ≤ now.toNat - r.time.toNat) ∧
    (∀ (looks : List (HealthCall O)) (first final : Nat), 0 < interval.nanos →
      (∀ c ∈ looks, c.LooksWithin first final ∧ c.now < maxWord) →
      (((start span interval counts).after calls).readings looks).length ≤
          1 + (final - first) / interval.nanos ∧
        (((start span interval counts).after calls).after looks).checker.aggregations =
          ((start span interval counts).after calls).checker.aggregations +
            UInt64.ofNat (((start span interval counts).after calls).readings looks).length) := by
  have htells : ((start span interval counts).after calls).Tells span interval _ :=
    tells_after counts hcalls
  refine ⟨fun now hnow => ?_, fun now hnow hsome => ?_,
    fun looks first final hinterval hlooks => ?_⟩
  · rw [readings_snoc, List.getLast?_append]
    obtain ⟨r, hr, hlook⟩ := htells.look_eq hnow
    refine ⟨r, ?_, hlook⟩
    cases hreading : ((start span interval counts).after calls).reading? (.health now) with
    | none => rwa [hreading] at hr
    | some _ => rwa [hreading] at hr
  · refine (htells.isDue_iff hnow).mp (by_contra fun hdue => ?_)
    rw [reading?_of_not_isDue hdue] at hsome
    cases hsome
  · exact ⟨htells.length_readings_le hinterval hlooks, aggregations_after _ looks⟩

/-- A monitor of counts in nine buckets of seven nanoseconds, with a span of forty and an interval
of ten. -/
def brisk : HealthMonitor ActionResult :=
  start ⟨40⟩ ⟨10⟩ (RollingCounts.empty ⟨9, 7, 0, by decide, by decide⟩)

/-- A snapshot is forced after the clock has gone back, and a failure comes in between and after. -/
def bumpyCalls : List (HealthCall ActionResult) :=
  [.health 100, .add .error 1 61, .refresh 65, .add .error 1 66]

/-- A look nine nanoseconds after the forced snapshot gets it, without the later failure, and so
does one that goes further back. A look at ten nanoseconds adds up, and looks within the twenty
nanoseconds from there do so three times at most. -/
theorem health_throttled_backwards :
    (∀ c ∈ bumpyCalls, c.now < maxWord) ∧
    ((brisk.readings bumpyCalls).map (·.time) = [100, 65] ∧
      (brisk.after bumpyCalls).look 74 = ⟨1, 1, 100⟩ ∧
        (brisk.after bumpyCalls).look 3 = ⟨1, 1, 100⟩) ∧
    (∃ r, (brisk.readings (bumpyCalls ++ [.health 74])).getLast? = some r ∧
      (brisk.after bumpyCalls).look 74 = r.counts.health ⟨40⟩ r.time ∧
      ((brisk.after bumpyCalls).reading? (.health 74) = some r ∨ 74 - r.time.toNat < 10)) ∧
    ((∀ r ∈ (brisk.readings bumpyCalls).getLast?, 10 ≤ 75 - r.time.toNat) ∧
      (brisk.after bumpyCalls).look 75 = ⟨2, 2, 100⟩) ∧
    ((brisk.after bumpyCalls).readings [.health 75, .health 85, .health 80, .health 95]).length ≤
      3 := by
  have hcalls : ∀ c ∈ bumpyCalls, c.now < maxWord := by decide
  obtain ⟨hlook, hapart, hrate⟩ := health_throttled ⟨40⟩ ⟨10⟩
    (RollingCounts.empty ⟨9, 7, 0, by decide, by decide⟩ : RollingCounts ActionResult) hcalls
  refine ⟨hcalls, ?_, hlook 74 (by decide), ⟨hapart 75 (by decide) ?_, ?_⟩,
    (hrate [.health 75, .health 85, .health 80, .health 95] 75 95 (by decide) ?_).1⟩
  · decide +kernel
  · decide +kernel
  · decide +kernel
  · intro c hc
    simp only [List.mem_cons, List.not_mem_nil, or_false] at hc
    rcases hc with rfl | rfl | rfl | rfl <;> exact ⟨⟨by decide, by decide⟩, by decide⟩

end HealthMonitor

end Admission
