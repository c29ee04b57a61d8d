import Admission.Latency.Interval
import Admission.Outcome.Vocabulary
import Admission.Proofs.Histogram.Merge
import Admission.Proofs.Recorder.Traffic
import Mathlib.Algebra.BigOperators.Group.List.Basic
import Mathlib.Data.List.Forall2

/-!
# Captures take the recordings apart

The captures of a latency recorder cut the recordings into intervals. What is recorded goes to the
active instance, and a capture makes the other one active, which is clear: it was cleared by the
capture before, or nothing was ever recorded in it. Histograms that were made for a key stay when an
instance is cleared, and are then no different from histograms that have not been made yet. So each
capture reports the recordings since the one before, and every recording is reported once.

## Main definitions

* `LatencyOp K`, `IntervalLatency.performAll`: operations, and the captures they return
* `LatencyOp.intervals`, `LatencyOp.recordings`: the recordings between captures, and all of them
* `LatencyCapture.Reports`: a capture has the counts of some recordings
* `LatencyAccumulator.Holds`, `IntervalLatency.Tracks`: what the instances hold
* `Phaser.Quiet`: nobody is inside

## Main results

* `LatencyAccumulator.Holds.reports`: a capture reports what the instance holds
* `IntervalLatency.Tracks.performAll`: the instances are kept track of over any operations
* `Recorder.quiet_flip`, `IntervalLatency.quiet_performAll`: a capture waits for nobody
* `IntervalLatency.captures_partition`: the captures report every recording once
-/

namespace Admission

open MetricKey (ordinal ordinal_injective ordinal_lt variants)

variable {K : Type}

/-! ## Operations -/

/-- What a latency recorder is used for. -/
inductive LatencyOp (K : Type) where
  | record (key : K) (nanos : UInt64)
  | capture
deriving DecidableEq, Repr

namespace LatencyOp

/-- All recordings, with their keys. -/
def recordings (ops : List (LatencyOp K)) : List (K × UInt64) :=
  ops.filterMap fun
    | .record key nanos => some (key, nanos)
    | .capture => none

/-- The recordings between captures: one list for every capture, of what is recorded since the
capture before, and the recordings after the last. Some recordings were there already. -/
def intervals (pending : List (K × UInt64)) :
    List (LatencyOp K) → List (List (K × UInt64)) × List (K × UInt64)
  | [] => ([], pending)
  | .record key nanos :: ops => intervals (pending ++ [(key, nanos)]) ops
  | .capture :: ops =>
    let (closed, last) := intervals [] ops
    (pending :: closed, last)

/-- Every recording is in one interval. -/
theorem flatten_intervals (pending : List (K × UInt64)) (ops : List (LatencyOp K)) :
    (intervals pending ops).1.flatten ++ (intervals pending ops).2 = pending ++ recordings ops := by
  induction ops generalizing pending with
  | nil => simp [intervals, recordings]
  | cons op ops ih =>
    cases op with
    | record key nanos =>
      rw [intervals, ih, List.append_assoc]
      rfl
    | capture =>
      rw [intervals]
      dsimp only
      rw [List.flatten_cons, List.append_assoc, ih]
      rfl

/-- What was pending is in the first interval. -/
theorem exists_length_le (pending : List (K × UInt64)) (ops : List (LatencyOp K)) :
    ∃ values ∈ (intervals pending ops).1 ++ [(intervals pending ops).2],
      pending.length ≤ values.length := by
  induction ops generalizing pending with
  | nil => exact ⟨pending, List.mem_cons_self, Nat.le_refl _⟩
  | cons op ops ih =>
    cases op with
    | record key nanos =>
      obtain ⟨values, hvalues, hle⟩ := ih (pending ++ [(key, nanos)])
      rw [List.length_append] at hle
      exact ⟨values, hvalues, Nat.le_trans (Nat.le_add_right _ _) hle⟩
    | capture => exact ⟨pending, List.mem_cons_self, Nat.le_refl _⟩

end LatencyOp

namespace IntervalLatency

variable [MetricKey K]

/-- What an operation does, and the captures it returns. -/
def perform (l : IntervalLatency K) : LatencyOp K → IntervalLatency K × List (LatencyCapture K)
  | .record key nanos => (l.record key nanos, [])
  | .capture => (l.capture.1, [l.capture.2])

/-- What operations do, one after another, and the captures they return. -/
def performAll (l : IntervalLatency K) :
    List (LatencyOp K) → IntervalLatency K × List (LatencyCapture K)
  | [] => (l, [])
  | op :: ops =>
    let (l, captures) := l.perform op
    let (l, more) := l.performAll ops
    (l, captures ++ more)

end IntervalLatency

/-! ## Counts of recordings -/

variable [MetricKey K] [DecidableEq K]

/-- How many recordings of a key belong to a bin, larger values as the bound. -/
def binCount (highest : UInt64) (values : List (K × UInt64)) (key : K) (bin : UInt64) : Nat :=
  values.countP fun e => e.1 = key ∧ Bin.index (min e.2 highest) = bin

omit [MetricKey K] in
theorem binCount_append (highest : UInt64) (values more : List (K × UInt64)) (key : K)
    (bin : UInt64) :
    binCount highest (values ++ more) key bin =
      binCount highest values key bin + binCount highest more key bin :=
  List.countP_append

/-- A capture has the counts of some recordings in every bin, for every key and for all keys
together. The counts are words: those of a key go around the end of the range, and those of all keys
stop there. -/
structure LatencyCapture.Reports (highest : UInt64) (values : List (K × UInt64))
    (c : LatencyCapture K) : Prop where
  get_eq (key : K) (bin : UInt64) :
    ((c.get key).bins.get bin).toNat = binCount highest values key bin % 2 ^ 64
  merged_eq (bin : UInt64) :
    (c.merged.bins.get bin).toNat =
      min ((variants K).map fun key => ((c.get key).bins.get bin).toNat).sum (2 ^ 64 - 1)

/-! ## Accumulators -/

namespace LatencyAccumulator

/-- The histogram of a key; one that has not been made yet is empty. -/
def histogram (a : LatencyAccumulator K) (key : K) : Histogram :=
  (a.get? key).getD (.empty a.highest)

/-- The values recorded for a key. -/
def valuesOf (key : K) (values : List (K × UInt64)) : List UInt64 :=
  (values.filter (·.1 = key)).map (·.2)

/-- An accumulator holds some recordings: the histogram of each key has counted its values. -/
structure Holds (highest : UInt64) (a : LatencyAccumulator K)
    (values : List (K × UInt64)) : Prop where
  highest_eq : a.highest = highest
  histogram_eq (key : K) :
    a.histogram key = (Histogram.empty highest).recordAll ((valuesOf key values).map (·, 1))

variable {highest : UInt64} {a : LatencyAccumulator K} {values : List (K × UInt64)}

omit [DecidableEq K] in
theorem get?_empty (highest : UInt64) (key : K) :
    (empty highest : LatencyAccumulator K).get? key = none :=
  Vector.getElem_replicate (ordinal_lt key)

omit [DecidableEq K] in
theorem get?_record_self (a : LatencyAccumulator K) (key : K) (nanos : UInt64) :
    (a.record key nanos).get? key = some ((a.histogram key).record nanos 1) :=
  (Vector.getElem_set (ordinal_lt key) (ordinal_lt key)).trans (if_pos rfl)

omit [DecidableEq K] in
theorem get?_record_of_ne {key other : K} (h : key ≠ other) (a : LatencyAccumulator K)
    (nanos : UInt64) : (a.record key nanos).get? other = a.get? other :=
  (Vector.getElem_set (ordinal_lt key) (ordinal_lt other)).trans
    (if_neg fun heq => h (ordinal_injective (Fin.ext heq)))

omit [DecidableEq K] in
theorem get?_reset (a : LatencyAccumulator K) (key : K) :
    a.reset.get? key = (a.get? key).map Histogram.reset :=
  Vector.getElem_map _ (ordinal_lt key)

theorem holds_empty (highest : UInt64) : Holds highest
    (empty highest : LatencyAccumulator K) [] where
  highest_eq := rfl
  histogram_eq key := by
    rw [histogram, get?_empty]
    rfl

/-- What is recorded is held from then on. -/
theorem Holds.record (h : Holds highest a values) (key : K) (nanos : UInt64) :
    Holds highest (a.record key nanos) (values ++ [(key, nanos)]) where
  highest_eq := h.highest_eq
  histogram_eq other := by
    rw [histogram, valuesOf, List.filter_append, List.map_append]
    by_cases hother : key = other
    · subst hother
      rw [get?_record_self, Option.getD_some, h.histogram_eq]
      simp [Histogram.recordAll, valuesOf]
    · rw [get?_record_of_ne hother]
      change a.histogram other = _
      rw [h.histogram_eq]
      simp [hother, valuesOf]

/-- Nothing is held after a reset, whether the histogram of a key had been made or not. -/
theorem Holds.reset (h : Holds highest a values) : Holds highest a.reset [] where
  highest_eq := h.highest_eq
  histogram_eq key := by
    have hkept : ∀ h', a.get? key = some h' → h'.highest = highest := by
      intro h' hh'
      have hhistogram := h.histogram_eq key
      rw [histogram, hh', Option.getD_some] at hhistogram
      rw [hhistogram, Histogram.highest_recordAll]
      rfl
    rw [histogram, get?_reset]
    cases hget : a.get? key with
    | none =>
      change Histogram.empty a.highest = _
      rw [h.highest_eq]
      rfl
    | some h' =>
      change Histogram.empty h'.highest = _
      rw [hkept h' hget]
      rfl

theorem Holds.sound (h : Holds highest a values) (key : K) : (a.histogram key).Sound := by
  rw [h.histogram_eq]
  exact (Histogram.sound_empty highest).recordAll _

omit [DecidableEq K] in
/-- A key that was never recorded has the distribution of an empty histogram. -/
theorem bins_snapshot (a : LatencyAccumulator K) (key : K)
    (h : (a.histogram key).highest = a.highest) :
    (a.snapshot key).bins = (a.histogram key).snapshot.bins := by
  unfold snapshot addTo histogram at *
  cases hget : a.get? key with
  | none => rfl
  | some h' =>
    rw [hget] at h
    change (h'.addTo (.empty a.highest)).bins = (h'.addTo (.empty h'.highest)).bins
    rw [show h'.highest = a.highest from h]

/-- An accumulator counts what it holds. -/
theorem Holds.get_snapshot (h : Holds highest a values) (key : K) (bin : UInt64) :
    (a.snapshot key).bins.Ascending ∧
      ((a.snapshot key).bins.get bin).toNat = binCount highest values key bin % 2 ^ 64 := by
  have hs := h.sound key
  have hhighest : (a.histogram key).highest = a.highest := by
    rw [h.histogram_eq, Histogram.highest_recordAll, h.highest_eq]
    rfl
  rw [bins_snapshot a key hhighest]
  refine ⟨hs.ascending_snapshot, ?_⟩
  have hget : (a.histogram key).bins.get bin =
      0 + UInt64.ofNat ((valuesOf key values).countP fun v => Bin.index (min v highest) = bin) := by
    rw [h.histogram_eq]
    exact (Histogram.sound_empty highest).get_recordAll _ bin
  have hcount : ((valuesOf key values).countP fun v => Bin.index (min v highest) = bin) =
      binCount highest values key bin := by
    rw [valuesOf, List.countP_map, List.countP_filter, binCount]
    refine List.countP_congr fun e _ => ?_
    simp only [Function.comp_apply, Bool.and_eq_true, decide_eq_true_iff]
    exact and_comm
  rw [hs.get_snapshot, hget, hcount, UInt64.zero_add, UInt64.toNat_ofNat']

end LatencyAccumulator

/-! ## Captures -/

namespace LatencyCapture

omit [DecidableEq K] in
theorem toList_snapshots (c : LatencyCapture K) : c.snapshots.toList = (variants K).map c.get := by
  apply List.ext_getElem
  · simp [variants]
  · intro i hi hi'
    simp [variants, get, MetricKey.ordinal_ofOrdinal]
    rfl

omit [DecidableEq K] in
/-- The counts of all keys are added up, bin by bin. -/
theorem get_merged (c : LatencyCapture K) (h : ∀ key, (c.get key).bins.Ascending) (bin : UInt64) :
    (c.merged.bins.get bin).toNat =
      min ((variants K).map fun key => ((c.get key).bins.get bin).toNat).sum (2 ^ 64 - 1) := by
  have hlist := toList_snapshots c
  unfold merged
  cases hkeys : variants K with
  | nil =>
    rw [hkeys] at hlist
    rw [hlist]
    rfl
  | cons key keys =>
    rw [hkeys] at hlist
    rw [hlist]
    have hasc : ∀ d ∈ keys.map c.get, d.bins.Ascending := by
      intro d hd
      obtain ⟨key', -, rfl⟩ := List.mem_map.mp hd
      exact h key'
    rw [List.map_cons]
    dsimp only
    rw [Distribution.get_foldl_merge (h key) hasc, List.map_map, List.map_cons, List.sum_cons]
    rfl

end LatencyCapture

namespace IntervalLatency

variable {highest : UInt64} {a : LatencyAccumulator K} {l : IntervalLatency K}
  {values pending : List (K × UInt64)}

omit [DecidableEq K] in
theorem get_captureOf (a : LatencyAccumulator K) (key : K) :
    (captureOf a).get key = a.snapshot key := by
  refine (Vector.getElem_ofFn (ordinal_lt key)).trans ?_
  rw [Fin.eta, MetricKey.ofOrdinal_ordinal]

/-- A capture reports what the accumulator holds. -/
theorem reports_captureOf (h : a.Holds highest values) : (captureOf a).Reports highest values where
  get_eq key bin := by
    rw [get_captureOf]
    exact (h.get_snapshot key bin).2
  merged_eq := by
    refine (captureOf a).get_merged fun key => ?_
    rw [get_captureOf]
    exact (h.get_snapshot key 0).1

/-! ## The two instances -/

/-- The active instance holds the recordings since the last capture, and the other one none. -/
structure Tracks (highest : UInt64) (l : IntervalLatency K)
    (pending : List (K × UInt64)) : Prop where
  active : LatencyAccumulator.Holds highest (l.recorder.get l.recorder.active) pending
  retired : LatencyAccumulator.Holds highest (l.recorder.get l.recorder.active.other) []

omit [DecidableEq K] in
theorem eq_of_make (h : make highest = .ok l) :
    l = { highest, recorder := { first := .empty highest, second := .empty highest } } := by
  unfold make LatencyAccumulator.make require at h
  split_ifs at h
  · cases h
    rfl
  · cases h

theorem tracks_make (h : make highest = .ok l) : Tracks highest l [] := by
  rw [eq_of_make h]
  exact ⟨LatencyAccumulator.holds_empty highest, LatencyAccumulator.holds_empty highest⟩

theorem Tracks.record (h : Tracks highest l pending) (key : K) (nanos : UInt64) :
    Tracks highest (l.record key nanos) (pending ++ [(key, nanos)]) := by
  obtain ⟨highest', ⟨first, second, active, phaser⟩⟩ := l
  cases active
  · exact ⟨h.active.record key nanos, h.retired⟩
  · exact ⟨h.active.record key nanos, h.retired⟩

/-- The instance that was active is reported and cleared, and the other one is active from then
on. -/
theorem Tracks.capture (h : Tracks highest l pending) :
    l.capture.2.Reports highest pending ∧ Tracks highest l.capture.1 [] := by
  obtain ⟨highest', ⟨first, second, active, phaser⟩⟩ := l
  cases active
  · exact ⟨reports_captureOf h.active, h.retired, h.active.reset⟩
  · exact ⟨reports_captureOf h.active, h.retired, h.active.reset⟩

/-- Each capture reports the recordings since the one before. -/
theorem Tracks.performAll (h : Tracks highest l pending) (ops : List (LatencyOp K)) :
    List.Forall₂ (LatencyCapture.Reports highest) (LatencyOp.intervals pending ops).1
        (l.performAll ops).2 ∧
      Tracks highest (l.performAll ops).1 (LatencyOp.intervals pending ops).2 := by
  induction ops generalizing l pending with
  | nil => exact ⟨.nil, h⟩
  | cons op ops ih =>
    cases op with
    | record key nanos => exact ih (h.record key nanos)
    | capture =>
      obtain ⟨hreports, hnext⟩ := h.capture
      obtain ⟨hrest, hlast⟩ := ih hnext
      exact ⟨.cons hreports hrest, hlast⟩

end IntervalLatency

/-! ## Waiting -/

namespace Phaser

/-- Nobody is inside, and so many have entered and left since the phase `k` began. -/
structure Quiet (p : Phaser) (k n : Nat) : Prop where
  start_eq : p.start = nthTicket (evenPhase k) n
  ended_eq : p.ended (evenPhase k) = nthTicket (evenPhase k) n

variable {p : Phaser} {k n : Nat}

theorem quiet_start : Quiet {} 0 0 := ⟨rfl, rfl⟩

/-- A writer whose steps nothing disturbs enters and leaves. -/
theorem Quiet.record (h : p.Quiet k n) (hn : n < 2 ^ 63) :
    (p.enter.1.exit p.enter.2).Quiet k (n + 1) := by
  have hsign : p.start < 0 ↔ evenPhase k = false := by
    rw [h.start_eq]
    exact nthTicket_lt_zero_iff hn _
  refine ⟨?_, ?_⟩
  · have hstart : (p.enter.1.exit p.enter.2).start = p.start + 1 := by
      unfold exit
      split_ifs <;> rfl
    rw [hstart, h.start_eq, nthTicket_succ]
  · rw [nthTicket_succ, ← h.ended_eq]
    exact (ended_exit hsign _).trans (by rw [if_pos rfl]; rfl)

end Phaser

namespace Recorder

variable {α β : Type} {r : Recorder α} {k n : Nat}

theorem phaser_record (r : Recorder α) (f : α → α × β) :
    (r.record f).1.phaser = r.phaser.enter.1.exit r.phaser.enter.2 := by
  simp [record, exit, write, enter]

theorem phaser_capture (r : Recorder α) (read : α → β) (clear : α → α) :
    (r.capture read clear).1.phaser = r.switch.1.flip.1.phaser := by
  simp [capture, collect]

/-- A reader that nothing disturbs finds that all have left, and another phase begins. -/
theorem quiet_flip (h : r.phaser.Quiet k n) (hn : n < 2 ^ 63) :
    r.flip.1.isDrained r.flip.2 = true ∧ r.flip.1.phaser.Quiet (k + 1) 0 := by
  have heven : r.phaser.nextIsEven = !Phaser.evenPhase k := by
    rw [← Phaser.evenPhase_succ]
    exact Phaser.nextIsEven_of_start h.start_eq hn
  constructor
  · -- The end counter that is reset is not the one of the old phase.
    have hended : r.flip.1.phaser.ended r.flip.2.even = r.phaser.ended (Phaser.evenPhase k) := by
      change (r.phaser.resetEnd r.phaser.nextIsEven).ended (!r.phaser.nextIsEven) = _
      rw [heven, Bool.not_not, Phaser.ended_resetEnd, if_neg (Bool.not_ne_self _).symm]
    have htarget : r.flip.2.target = r.phaser.start := Phaser.start_resetEnd _ _
    rw [isDrained, hended, htarget, h.ended_eq, h.start_eq]
    exact beq_self_eq_true _
  · refine ⟨?_, ?_⟩
    · change Phaser.firstTicket r.phaser.nextIsEven = _
      rw [heven, Phaser.evenPhase_succ, Phaser.nthTicket_zero]
    · change (r.phaser.resetEnd r.phaser.nextIsEven).ended _ = _
      rw [heven, Phaser.evenPhase_succ, Phaser.nthTicket_zero, Phaser.ended_resetEnd, if_pos rfl]

end Recorder

namespace IntervalLatency

variable {l : IntervalLatency K} {pending : List (K × UInt64)} {k : Nat}

omit [DecidableEq K] in
/-- A capture waits for nobody, however many captures there were, if none of the intervals has as
many recordings as there are tickets of one sign. -/
theorem quiet_performAll (h : l.recorder.phaser.Quiet k pending.length) (ops : List (LatencyOp K))
    (hfew : ∀ values ∈ (LatencyOp.intervals pending ops).1 ++ [(LatencyOp.intervals pending ops).2],
      values.length < 2 ^ 63) :
    ∃ k, (l.performAll ops).1.recorder.phaser.Quiet k
      (LatencyOp.intervals pending ops).2.length := by
  induction ops generalizing l pending k with
  | nil => exact ⟨k, h⟩
  | cons op ops ih =>
    have hpending : pending.length < 2 ^ 63 := by
      obtain ⟨values, hvalues, hle⟩ := LatencyOp.exists_length_le pending (op :: ops)
      exact Nat.lt_of_le_of_lt hle (hfew values hvalues)
    cases op with
    | record key nanos =>
      have hrecord :
          (l.record key nanos).recorder.phaser.Quiet k (pending ++ [(key, nanos)]).length := by
        rw [List.length_append, record, Recorder.phaser_record]
        exact h.record hpending
      exact ih hrecord hfew
    | capture =>
      have hcapture :
          l.capture.1.recorder.phaser.Quiet (k + 1) ([] : List (K × UInt64)).length := by
        rw [capture, Recorder.phaser_capture]
        exact (Recorder.quiet_flip (r := l.recorder.switch.1) h hpending).2
      exact ih hcapture fun values hvalues => hfew values (List.mem_cons_of_mem _ hvalues)

/-- The counts of captures that report some recordings each add up to those of all recordings. -/
theorem sum_reports {highest : UInt64} {closed : List (List (K × UInt64))}
    {captures : List (LatencyCapture K)}
    (h : List.Forall₂ (LatencyCapture.Reports highest) closed captures) (key : K) (bin : UInt64) :
    (captures.map fun c => ((c.get key).bins.get bin).toNat).sum % 2 ^ 64 =
      binCount highest closed.flatten key bin % 2 ^ 64 := by
  induction h with
  | nil => rfl
  | cons hreports _ ih =>
    rw [List.map_cons, List.sum_cons, List.flatten_cons, binCount_append, Nat.add_mod, ih,
      hreports.get_eq, Nat.mod_mod, ← Nat.add_mod]

/-- **Captures take the recordings apart.** A recorder for a bound of at least two is used for any
recordings and captures. The recordings between captures, with those after the last one, are all
recordings in their order. Each capture reports the recordings since the one before, and so does the
capture that would come next: in every bin it has the number of values of each key that belong to
the bin, larger values as the bound, and all keys together have the sum. So the counts of all
captures are those of all recordings: no value is lost, gets to another key or is returned twice. No
capture waits for anybody, if fewer than `2 ^ 63` values are recorded between two of them. -/
theorem captures_partition {highest : UInt64} (hmake : make highest = .ok l)
    (ops : List (LatencyOp K)) :
    (LatencyOp.intervals [] ops).1.flatten ++ (LatencyOp.intervals [] ops).2 =
        LatencyOp.recordings ops ∧
      List.Forall₂ (LatencyCapture.Reports highest) (LatencyOp.intervals [] ops).1
        (l.performAll ops).2 ∧
      (l.performAll ops).1.capture.2.Reports highest (LatencyOp.intervals [] ops).2 ∧
      (∀ key bin,
        (((l.performAll ops).2 ++ [(l.performAll ops).1.capture.2]).map
            fun c => ((c.get key).bins.get bin).toNat).sum % 2 ^ 64 =
          binCount highest (LatencyOp.recordings ops) key bin % 2 ^ 64) ∧
      ((∀ values ∈ (LatencyOp.intervals [] ops).1 ++ [(LatencyOp.intervals [] ops).2],
          values.length < 2 ^ 63) →
        (l.performAll ops).1.recorder.switch.1.flip.1.isDrained
          (l.performAll ops).1.recorder.switch.1.flip.2 = true) := by
  have hsplit := LatencyOp.flatten_intervals [] ops
  rw [List.nil_append] at hsplit
  obtain ⟨hreports, hlast⟩ := (tracks_make hmake).performAll ops
  have hnext := hlast.capture.1
  refine ⟨hsplit, hreports, hnext, fun key bin => ?_, fun hfew => ?_⟩
  · rw [sum_reports (List.rel_append hreports (.cons hnext .nil)), List.flatten_append,
      List.flatten_singleton, hsplit]
  · have hquiet : l.recorder.phaser.Quiet 0 ([] : List (K × UInt64)).length := by
      rw [eq_of_make hmake]
      exact Phaser.quiet_start
    obtain ⟨k, hk⟩ := quiet_performAll hquiet ops hfew
    have hpending := hfew _ (List.mem_append_right _ List.mem_cons_self)
    exact (Recorder.quiet_flip (r := (l.performAll ops).1.recorder.switch.1) hk hpending).1

/-- Three captures: the second one comes from the instance that was not active at first, and the
third one finds nothing in the instance that the first one cleared. -/
theorem captures_partition_thrice :
    let ops : List (LatencyOp ActionResult) :=
      [.record .success 5, .capture, .record .error 20000, .record .success 7, .capture, .capture,
        .record .success 9]
    ∃ l, make 10000 = .ok l ∧
      List.Forall₂ (LatencyCapture.Reports 10000)
        [[(.success, 5)], [(.error, 20000), (.success, 7)], []] (l.performAll ops).2 ∧
      (l.performAll ops).1.capture.2.Reports 10000 [(.success, 9)] ∧
      (l.performAll ops).1.recorder.switch.1.flip.1.isDrained
        (l.performAll ops).1.recorder.switch.1.flip.2 = true := by
  intro ops
  obtain ⟨-, hreports, hnext, -, hdrained⟩ :=
    captures_partition (show make 10000 = .ok _ from rfl) ops
  refine ⟨_, rfl, hreports, hnext, hdrained fun values hvalues => ?_⟩
  have hall : values ∈ [[(ActionResult.success, (5 : UInt64))],
      [(.error, 20000), (.success, 7)], [],
        [(.success, 9)]] := hvalues
  simp only [List.mem_cons, List.not_mem_nil, or_false] at hall
  rcases hall with rfl | rfl | rfl | rfl <;> decide

end IntervalLatency

end Admission
