import Admission.Config.Basic
import Admission.Latency.Interval
import Admission.Latency.Rolling
import Admission.Proofs.Health
import Mathlib.Algebra.Order.Floor.Div

/-!
# What a valid configuration builds

Every part of a guard rail checks its own section of a configuration before it is built, and nothing
that comes after the check can fail. Sections are given in milliseconds, and parts count in
nanoseconds, in words that stop at the end of their range. A section that passes its check is never
cut off there: a window spans less than the timeline, so the width of its buckets is the configured
one, and its ring has fewer places than there are words.

The check of a whole configuration also compares the trailing period of the circuit breaker with the
span of the window. So a look at the health takes all the buckets that the period needs, rounded up,
and is not cut short by the size of the window.

## Main definitions

* `Guards`: a part is built if and only if a check of its settings passes
* `Window.Shape.Follows`: a window has the configured buckets, on a ring that holds them
* `Config.Valid`: what the check of a configuration finds out

## Main results

* `WindowConfig.validate_eq_ok_iff`: which settings of a window are valid
* `Window.Shape.exists_follows`: what is built with them
* `Window.Shape.Follows.bucketsFor_toNat`: the buckets that cover a span which fits the window
* `Config.parts_of_validate`: what a valid configuration builds
-/

namespace Admission

/-! ## Checks that come first -/

/-- A check guards what is built: it passes if and only if something is built, and otherwise there
is its error. -/
structure Guards {α : Type} (check : Except Error Unit) (built : Except Error α) : Prop where
  builds : check = .ok () → ∃ a, built = .ok a
  refuses : ∀ e, check = .error e → built = .error e

namespace Guards

variable {α β : Type} {check : Except Error Unit} {rest : Except Error α}

/-- What follows a check is built when it cannot fail any more. -/
theorem of_rest (h : check = .ok () → ∃ a, rest = .ok a) :
    Guards check (check >>= fun _ => rest) := by
  constructor
  · intro hok
    rw [hok]
    exact h hok
  · intro e herror
    rw [herror]
    rfl

theorem map {built : Except Error α} (h : Guards check built) (f : α → β) :
    Guards check (built.map f) := by
  constructor
  · intro hok
    obtain ⟨a, ha⟩ := h.builds hok
    exact ⟨f a, by rw [ha]; rfl⟩
  · intro e herror
    rw [h.refuses e herror]
    rfl

end Guards

section Checks

variable {α β : Type} {x : Except Error β} {f : β → Except Error α} {check : Except Error Unit}
  {rest : Except Error α} {a : α}

theorem bind_eq_ok_iff : (x >>= f) = .ok a ↔ ∃ b, x = .ok b ∧ f b = .ok a := by
  cases x with
  | error e =>
    constructor
    · rintro ⟨⟩
    · rintro ⟨b, ⟨⟩, -⟩
  | ok b =>
    constructor
    · intro h
      exact ⟨b, rfl, h⟩
    · rintro ⟨b', ⟨⟩, h⟩
      exact h

/-- What follows a check is built when the check passes. -/
theorem check_then_eq_ok_iff : (check >>= fun _ => rest) = .ok a ↔ check = .ok () ∧
    rest = .ok a := by
  rw [bind_eq_ok_iff]
  constructor
  · rintro ⟨⟨⟩, hcheck, hrest⟩
    exact ⟨hcheck, hrest⟩
  · rintro ⟨hcheck, hrest⟩
    exact ⟨(), hcheck, hrest⟩

end Checks

theorem Duration.ofMillis_nanos_pos {n : UInt64} (h : n ≠ 0) : 0 < (Duration.ofMillis n).nanos := by
  have hpos : 0 < n.toNat := Nat.pos_of_ne_zero fun hzero => h (UInt64.toNat_inj.mp hzero)
  exact Nat.mul_pos hpos (by decide)

theorem Duration.toWord_ne_zero {d : Duration} (h : 0 < d.nanos) : d.toWord ≠ 0 := by
  intro hzero
  have hword := d.toWord_toNat
  rw [hzero] at hword
  simp only [UInt64.reduceToNat] at hword
  omega

/-! ## Windows -/

namespace WindowConfig

variable {c : WindowConfig}

theorem span_eq_ok_iff {span : Duration} : c.span = .ok span ↔
    span.nanos = c.bucketWidth.nanos * c.bucketCount.toNat ∧ span.nanos < 2 ^ 64 := by
  unfold WindowConfig.span
  dsimp only
  split_ifs with hfits
  · constructor
    · rintro ⟨⟩
      exact ⟨rfl, hfits⟩
    · rintro ⟨hspan, -⟩
      exact congrArg Except.ok (congrArg Duration.mk hspan.symm)
  · constructor
    · rintro ⟨⟩
    · rintro ⟨hspan, hlt⟩
      exact absurd (hspan ▸ hlt) hfits

theorem validate_eq_ok_iff : c.validate = .ok () ↔
    c.bucketCount ≠ 0 ∧ c.bucketWidthMillis ≠ 0 ∧
      c.bucketWidth.nanos * c.bucketCount.toNat < 2 ^ 64 := by
  have hspan : (c.span >>= fun _ => pure ()) = .ok () ↔
      c.bucketWidth.nanos * c.bucketCount.toNat < 2 ^ 64 := by
    rw [bind_eq_ok_iff]
    constructor
    · rintro ⟨span, hspan, -⟩
      obtain ⟨hnanos, hlt⟩ := span_eq_ok_iff.mp hspan
      exact hnanos ▸ hlt
    · intro hlt
      exact ⟨⟨_⟩, span_eq_ok_iff.mpr ⟨rfl, hlt⟩, rfl⟩
  unfold validate
  rw [check_then_eq_ok_iff, check_then_eq_ok_iff, require_eq_ok_iff, require_eq_ok_iff]
  exact and_congr_right' (and_congr_right' hspan)

end WindowConfig

namespace Window.Shape

/-- A window has as many buckets as were configured, as wide, and from the same start on. They have
their places on a ring whose size is a power of two and a word, and of which less than half is
spare. -/
structure Follows (s : Shape) (c : WindowConfig) (start : UInt64) : Prop where
  bucketCount : s.bucketCount = c.bucketCount
  width : s.width.toNat = c.bucketWidth.nanos
  start : s.start = start
  capacity : ∃ k, s.capacity = 2 ^ k
  bucketCount_le : c.bucketCount.toNat ≤ s.capacity
  capacity_lt : s.capacity < 2 * c.bucketCount.toNat
  capacity_fits : s.capacity < 2 ^ 64

variable {s : Shape} {c : WindowConfig} {start : UInt64} {d : Duration}

/-- **What is built with valid settings of a window.** -/
theorem exists_follows (h : c.validate = .ok ()) (start : UInt64) :
    ∃ s, make c.bucketCount c.bucketWidth start = .ok s ∧ s.Follows c start := by
  obtain ⟨hcount, hmillis, hspan⟩ := WindowConfig.validate_eq_ok_iff.mp h
  have hpos : 0 < c.bucketCount.toNat := Nat.pos_of_ne_zero fun hzero =>
    hcount (UInt64.toNat_inj.mp hzero)
  have hwidth : 0 < c.bucketWidth.nanos := Duration.ofMillis_nanos_pos hmillis
  have hword : c.bucketWidth.toWord ≠ 0 := Duration.toWord_ne_zero hwidth
  -- One bucket is no wider than all of them, and a bucket is a million nanoseconds wide at least.
  have hone : c.bucketWidth.nanos ≤ c.bucketWidth.nanos * c.bucketCount.toNat :=
    Nat.le_mul_of_pos_right _ hpos
  have hmillion : 1000000 ≤ c.bucketWidth.nanos := by
    have : 0 < c.bucketWidthMillis.toNat :=
      Nat.pos_of_ne_zero fun hzero => hmillis (UInt64.toNat_inj.mp hzero)
    show 1000000 ≤ c.bucketWidthMillis.toNat * 1000000
    omega
  have hmany : 1000000 * c.bucketCount.toNat ≤ c.bucketWidth.nanos * c.bucketCount.toNat :=
    Nat.mul_le_mul_right _ hmillion
  have hless : ceilPow2 c.bucketCount.toNat < 2 * c.bucketCount.toNat := ceilPow2_lt_two_mul hpos
  refine ⟨⟨c.bucketCount, c.bucketWidth.toWord, start, hcount, hword⟩, ?_, ?_⟩
  · rw [make, dif_neg hcount, dif_neg hword]
  · exact {
      bucketCount := rfl
      width := by
        show c.bucketWidth.toWord.toNat = c.bucketWidth.nanos
        rw [Duration.toWord_toNat]
        omega
      start := rfl
      capacity := ⟨_, ceilPow2_eq c.bucketCount.toNat⟩
      bucketCount_le := le_ceilPow2 c.bucketCount.toNat
      capacity_lt := hless
      capacity_fits := by
        show ceilPow2 c.bucketCount.toNat < 2 ^ 64
        omega }

/-- **The buckets that cover a span which is no longer than the window**: as many as it needs,
rounded up, and not fewer because of the size of the window. -/
theorem Follows.bucketsFor_toNat (h : s.Follows c start) (hpos : 0 < d.nanos)
    (hspan : d.nanos ≤ c.bucketWidth.nanos * c.bucketCount.toNat) (hfits : d.nanos < 2 ^ 64) :
    (s.bucketsFor d).toNat = d.nanos ⌈/⌉ c.bucketWidth.nanos ∧
      d.nanos ⌈/⌉ c.bucketWidth.nanos ≤ c.bucketCount.toNat ∧
      d.nanos ≤ (d.nanos ⌈/⌉ c.bucketWidth.nanos) * c.bucketWidth.nanos := by
  have hwidth : 0 < c.bucketWidth.nanos := h.width ▸ s.width_pos
  have hle : d.nanos ⌈/⌉ c.bucketWidth.nanos ≤ c.bucketCount.toNat :=
    (ceilDiv_le_iff_le_mul hwidth).mpr hspan
  have hcovers : d.nanos ≤ c.bucketWidth.nanos * (d.nanos ⌈/⌉ c.bucketWidth.nanos) :=
    (ceilDiv_le_iff_le_mul hwidth).mp le_rfl
  have hone : 1 ≤ d.nanos ⌈/⌉ c.bucketWidth.nanos := by
    by_contra hzero
    rw [Nat.eq_zero_of_not_pos hzero] at hcovers
    omega
  have hword : min d.nanos (2 ^ 64 - 1) = d.nanos := Nat.min_eq_left (by omega)
  refine ⟨?_, hle, Nat.mul_comm _ _ ▸ hcovers⟩
  rw [Shape.bucketsFor_toNat, reach, h.width, h.bucketCount, hword, ← Nat.ceilDiv_eq_add_pred_div,
    Nat.max_eq_left hone, Nat.min_eq_left hle]

end Window.Shape

/-! ## Parts -/

section Parts

variable {K : Type} [MetricKey K] {start : UInt64}

theorem Window.Shape.guards_ofConfig (c : WindowConfig) (start : UInt64) :
    Guards c.validate (Shape.ofConfig c start) :=
  Guards.of_rest fun h => (exists_follows h start).imp fun _ => And.left

theorem RollingCounts.guards_ofConfig (c : WindowConfig) (start : UInt64) :
    Guards c.validate (RollingCounts.ofConfig (K := K) c start) :=
  (Window.Shape.guards_ofConfig c start).map _

theorem RollingCounts.exists_ofConfig {c : WindowConfig} (h : c.validate = .ok ())
    (start : UInt64) :
    ∃ r : RollingCounts K, ofConfig c start = .ok r ∧ r.window.shape.Follows c start := by
  obtain ⟨s, hs, hfollows⟩ := Window.Shape.exists_follows h start
  have hshape : Window.Shape.ofConfig c start = .ok s := check_then_eq_ok_iff.mpr ⟨h, hs⟩
  exact ⟨empty s, by rw [ofConfig, hshape]; rfl, hfollows⟩

theorem LatencyAccumulator.make_eq {highest : UInt64} (h : 2 ≤ highest) :
    make (K := K) highest = .ok (empty highest) :=
  check_then_eq_ok_iff.mpr ⟨require_eq_ok_iff.mpr h, rfl⟩

theorem IntervalLatency.guards_ofConfig (c : LatencyConfig) :
    Guards c.validate (IntervalLatency.ofConfig (K := K) c) := by
  refine Guards.of_rest fun h => ?_
  rw [make, LatencyAccumulator.make_eq (require_eq_ok_iff.mp h)]
  exact ⟨_, rfl⟩

theorem RollingLatency.exists_ofConfig {w : WindowConfig} {l : LatencyConfig}
    (hw : w.validate = .ok ())
    (hl : l.validate = .ok ()) (start : UInt64) :
    ∃ r : RollingLatency K, ofConfig w l start = .ok r ∧ r.window.shape.Follows w start := by
  obtain ⟨s, hs, hfollows⟩ := Window.Shape.exists_follows hw start
  have hshape : makeShape w.bucketCount w.bucketWidth start l.highestTrackableNanos = .ok s :=
    check_then_eq_ok_iff.mpr ⟨require_eq_ok_iff.mpr (require_eq_ok_iff.mp hl), hs⟩
  have hmake : make (K := K) w.bucketCount w.bucketWidth start l.highestTrackableNanos =
      .ok (empty s l.highestTrackableNanos) := by rw [make, hshape]; rfl
  exact ⟨_, check_then_eq_ok_iff.mpr ⟨hw, check_then_eq_ok_iff.mpr ⟨hl, hmake⟩⟩, hfollows⟩

/-- Latencies in a window have two sections, and the first that is not valid decides. -/
theorem RollingLatency.guards_ofConfig (w : WindowConfig) (l : LatencyConfig) (start : UInt64) :
    Guards (do w.validate; l.validate) (RollingLatency.ofConfig (K := K) w l start) := by
  have hsplit : RollingLatency.ofConfig (K := K) w l start =
    (do w.validate; l.validate) >>= fun _ =>
      make w.bucketCount w.bucketWidth start l.highestTrackableNanos := (bind_assoc _ _ _).symm
  rw [hsplit]
  refine Guards.of_rest fun h => ?_
  obtain ⟨hw, hl⟩ := check_then_eq_ok_iff.mp h
  obtain ⟨r, hr, -⟩ := exists_ofConfig (K := K) hw hl start
  exact ⟨r, by rwa [hsplit, h] at hr⟩

theorem Semaphore.guards_ofConfig (c : SemaphoreConfig) :
    Guards c.validate (Semaphore.ofConfig c) :=
  Guards.of_rest fun _ => ⟨_, rfl⟩

theorem RateLimiter.guards_ofConfig (c : RateLimiterConfig) (now : UInt64) :
    Guards c.validate (RateLimiter.ofConfig c now) := by
  refine Guards.of_rest fun h => ?_
  obtain ⟨hallowed, hmillis⟩ := check_then_eq_ok_iff.mp h
  have hperiod : c.period.toWord ≠ 0 :=
    Duration.toWord_ne_zero (Duration.ofMillis_nanos_pos (require_eq_ok_iff.mp hmillis))
  exact ⟨_, check_then_eq_ok_iff.mpr ⟨hallowed,
    check_then_eq_ok_iff.mpr ⟨require_eq_ok_iff.mpr hperiod, rfl⟩⟩⟩

theorem CircuitBreaker.guards_make (name : String) (c : BreakerConfig) :
    Guards c.validate (CircuitBreaker.make name c) :=
  Guards.of_rest fun _ => ⟨_, rfl⟩

end Parts

/-! ## Whole configurations -/

namespace Config

/-- What the check of a configuration finds out. -/
structure Valid (c : Config) : Prop where
  rolling : c.rolling.validate = .ok ()
  latency : c.latency.validate = .ok ()
  semaphore : c.semaphore.validate = .ok ()
  rateLimiter : c.rateLimiter.validate = .ok ()
  circuitBreaker : c.circuitBreaker.validate = .ok ()
  /-- The circuit breaker looks back no further than the window reaches. -/
  trailing : c.circuitBreaker.trailingPeriod.nanos ≤
    c.rolling.bucketWidth.nanos * c.rolling.bucketCount.toNat

theorem valid_of_validate {c : Config} (h : c.validate = .ok ()) : c.Valid := by
  obtain ⟨hrolling, h⟩ := check_then_eq_ok_iff.mp h
  obtain ⟨hlatency, h⟩ := check_then_eq_ok_iff.mp h
  obtain ⟨hsemaphore, h⟩ := check_then_eq_ok_iff.mp h
  obtain ⟨hlimiter, h⟩ := check_then_eq_ok_iff.mp h
  obtain ⟨hbreaker, h⟩ := check_then_eq_ok_iff.mp h
  obtain ⟨-, h⟩ := check_then_eq_ok_iff.mp h
  obtain ⟨span, hspan, htrailing⟩ := bind_eq_ok_iff.mp h
  obtain ⟨hnanos, -⟩ := WindowConfig.span_eq_ok_iff.mp hspan
  have hle : c.circuitBreaker.trailingPeriod.nanos ≤ span.nanos := require_eq_ok_iff.mp htrailing
  rw [hnanos] at hle
  exact ⟨hrolling, hlatency, hsemaphore, hlimiter, hbreaker, hle⟩

theorem Valid.trailing_pos {c : Config} (h : c.Valid) :
    0 < c.circuitBreaker.trailingPeriod.nanos := by
  obtain ⟨-, hperiods⟩ := check_then_eq_ok_iff.mp h.circuitBreaker
  obtain ⟨htrailing, -⟩ := check_then_eq_ok_iff.mp hperiods
  exact Duration.ofMillis_nanos_pos (require_eq_ok_iff.mp htrailing)

theorem Valid.trailing_lt {c : Config} (h : c.Valid) :
    c.circuitBreaker.trailingPeriod.nanos < 2 ^ 64 :=
  h.trailing.trans_lt (WindowConfig.validate_eq_ok_iff.mp h.rolling).2.2

/-- **What a valid configuration builds**: every part, from any start. Windows have the configured
buckets, and a ring that holds them. A look of the circuit breaker at the health takes as many
buckets, up to the present one, as its trailing period needs when it is rounded up; these are no
more than the window has, and no less than the period. Conversely, nothing is built from a section
that is not valid. -/
theorem parts_of_validate (c : Config) (name : String) (start : UInt64) (K : Type) [MetricKey K] :
    (c.validate = .ok () →
      ∃ (counts : RollingCounts K) (latency : RollingLatency K) (interval : IntervalLatency K)
        (semaphore : Semaphore) (limiter : RateLimiter) (breaker : CircuitBreaker),
        (RollingCounts.ofConfig c.rolling start = .ok counts ∧
          RollingLatency.ofConfig c.rolling c.latency start = .ok latency ∧
          IntervalLatency.ofConfig c.latency = .ok interval ∧
          Semaphore.ofConfig c.semaphore = .ok semaphore ∧
          RateLimiter.ofConfig c.rateLimiter start = .ok limiter ∧
          CircuitBreaker.make name c.circuitBreaker = .ok breaker) ∧
        counts.window.shape.Follows c.rolling start ∧ latency.window.shape.Follows c.rolling start ∧
        ∃ n, n = c.circuitBreaker.trailingPeriod.nanos ⌈/⌉ c.rolling.bucketWidth.nanos ∧
          n ≤ c.rolling.bucketCount.toNat ∧
          c.circuitBreaker.trailingPeriod.nanos ≤ n * c.rolling.bucketWidth.nanos ∧
          ∀ (results : RollingCounts K) (now slot : UInt64),
            results.window.shape = counts.window.shape →
            (slot ∈ (results.window.cursorOver now breaker.health.trailing).remaining ↔
              slot ≤ results.window.shape.slotOf now ∧
                (results.window.shape.slotOf now).toNat < slot.toNat + n)) ∧
      Guards c.rolling.validate (RollingCounts.ofConfig (K := K) c.rolling start) ∧
      Guards (do c.rolling.validate; c.latency.validate)
        (RollingLatency.ofConfig (K := K) c.rolling c.latency start) ∧
      Guards c.latency.validate (IntervalLatency.ofConfig (K := K) c.latency) ∧
      Guards c.semaphore.validate (Semaphore.ofConfig c.semaphore) ∧
      Guards c.rateLimiter.validate (RateLimiter.ofConfig c.rateLimiter start) ∧
      Guards c.circuitBreaker.validate (CircuitBreaker.make name c.circuitBreaker) := by
  have hsemaphore := Semaphore.guards_ofConfig c.semaphore
  have hlimiter := RateLimiter.guards_ofConfig c.rateLimiter start
  have hinterval := IntervalLatency.guards_ofConfig (K := K) c.latency
  have hbreaker := CircuitBreaker.guards_make name c.circuitBreaker
  refine ⟨fun h => ?_, RollingCounts.guards_ofConfig c.rolling start,
    RollingLatency.guards_ofConfig c.rolling c.latency start, hinterval, hsemaphore,
      hlimiter, hbreaker⟩
  have hvalid := valid_of_validate h
  obtain ⟨counts, hcounts, hshape⟩ := RollingCounts.exists_ofConfig (K := K) hvalid.rolling start
  obtain ⟨latency, hlatency, hshape'⟩ :=
    RollingLatency.exists_ofConfig (K := K) hvalid.rolling hvalid.latency start
  obtain ⟨interval, hinterval⟩ := hinterval.builds hvalid.latency
  obtain ⟨semaphore, hsemaphore⟩ := hsemaphore.builds hvalid.semaphore
  obtain ⟨limiter, hlimiter⟩ := hlimiter.builds hvalid.rateLimiter
  obtain ⟨breaker, hbreaker⟩ := hbreaker.builds hvalid.circuitBreaker
  have htrailing : breaker.health.trailing = c.circuitBreaker.trailingPeriod :=
    (CircuitBreaker.follows_make hbreaker).trailing
  obtain ⟨hbuckets, hle, hcovers⟩ :=
    hshape.bucketsFor_toNat hvalid.trailing_pos hvalid.trailing hvalid.trailing_lt
  refine ⟨counts, latency, interval, semaphore, limiter, breaker,
    ⟨hcounts, hlatency, hinterval, hsemaphore, hlimiter, hbreaker⟩, hshape, hshape', _,
      rfl, hle, hcovers,
    fun results now slot hresults => ?_⟩
  rw [htrailing, ← hbuckets, ← hresults]
  exact Window.Shape.mem_slotsEnding (Window.Shape.bucketsFor_ne_zero _ _)

/-- Three buckets that fill the timeline almost to its end. A trailing period of one millisecond
more than two of them takes all three. One more bucket would not be valid, and nothing would be
built. -/
theorem parts_of_validate_longest :
    let c : Config := {
      rolling := { bucketCount := 3, bucketWidthMillis := 6148914691236 }
      circuitBreaker := { trailingPeriodMillis := 12297829382473 } }
    let d : WindowConfig := { c.rolling with bucketCount := 4 }
    c.validate = .ok () ∧
      (∃ counts : RollingCounts ActionResult, RollingCounts.ofConfig c.rolling 7 = .ok counts ∧
        counts.window.shape.Follows c.rolling 7) ∧
      c.circuitBreaker.trailingPeriod.nanos ⌈/⌉ c.rolling.bucketWidth.nanos = 3 ∧
      RollingCounts.ofConfig (K := ActionResult) d 7 =
        .error (.invalidConfig (.spanTooLarge 4 6148914691236)) := by
  intro c d
  have hvalid : c.validate = .ok () := by decide +kernel
  obtain ⟨counts, -, -, -, -, -, ⟨hcounts, -⟩, hshape, -⟩ :=
    (parts_of_validate c "breaker" 7 ActionResult).1 hvalid
  obtain ⟨-, hrolling, -⟩ := parts_of_validate { c with rolling := d } "breaker" 7 ActionResult
  exact ⟨hvalid, ⟨counts, hcounts, hshape⟩,
    by decide +kernel, hrolling.refuses _ (by decide +kernel)⟩

end Config

end Admission
