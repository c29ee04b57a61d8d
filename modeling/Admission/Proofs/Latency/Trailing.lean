import Admission.Latency.Rolling
import Admission.Proofs.Counts.Trailing
import Admission.Proofs.Latency.Intervals

/-!
# What rolling latencies tell

Rolling latencies are fed with timings at timestamps in any order. A query merges the histograms of
its keys in the buckets that it looks back over, and a distribution that histograms are merged into
has in every bin the number of all their values together, as long as they can be counted. So a query
tells of the timings in the slots that its span covers, without those whose slot was overtaken, each
in its bin, and queries that look back over the same slots agree.

## Main definitions

* `Timing K`: a latency that is recorded for a key at a timestamp
* `RollingLatency.after`: rolling latencies after a history of timings
* `Timing.found`: the timings that a query finds
* `Distribution.Counted`: a distribution with the counts of some values

## Main results

* `Distribution.Counted.addTo`: a histogram is merged into a distribution without a loss
* `RollingLatency.getD_stored?_after`: what is stored for one slot
* `RollingLatency.counted_gather`: what queries for some keys tell
* `RollingLatency.queries_agree`: the queries of a window agree
-/

namespace Admission

open Window (Shape)
open MetricKey (variants mem_variants nodup_variants)

/-! ## Lists by classes -/

/-- A list that is taken apart by the classes of its members, and put together again. -/
theorem perm_flatMap_filter {α ι : Type} [DecidableEq ι] (f : α → ι) {is : List ι} (his : is.Nodup)
    (l : List α) : (is.flatMap fun i => l.filter (f · = i)).Perm (l.filter (f · ∈ is)) := by
  induction is with
  | nil => simp
  | cons i is ih =>
    obtain ⟨hi, his⟩ := List.nodup_cons.mp his
    have hself : (l.filter (f · ∈ i :: is)).filter (f · = i) = l.filter (f · = i) := by
      rw [List.filter_filter]
      exact List.filter_congr fun a _ => by by_cases ha : f a = i <;> simp [ha]
    have hothers : (l.filter (f · ∈ i :: is)).filter (fun a => !decide (f a = i)) =
        l.filter (f · ∈ is) := by
      rw [List.filter_filter]
      exact List.filter_congr fun a _ => by by_cases ha : f a = i <;> simp [ha, hi]
    rw [List.flatMap_cons, ← hself]
    refine ((ih his).append_left _).trans ?_
    rw [← hothers]
    exact List.filter_append_perm _ _

/-! ## Merging histograms -/

namespace Bins

/-- The sum of counts that are added bin by bin, if it can be counted. -/
theorem Ascending.sum_foldl_alter {b : Bins} (hb : b.Ascending) (l : List (UInt64 × UInt64))
    (hfits : b.sum + (l.map (·.2.toNat)).sum < 2 ^ 64) :
    (l.foldl (fun b e => b.alter e.1 (addSat · e.2)) b).sum = b.sum + (l.map (·.2.toNat)).sum := by
  induction l generalizing b with
  | nil => rfl
  | cons e l ih =>
    rw [List.map_cons, List.sum_cons] at hfits ⊢
    have hm : maxWord.toNat = 2 ^ 64 - 1 := rfl
    have hle := hb.get_le_sum e.1
    have hfirst := hb.sum_alter e.1 (addSat · e.2)
    rw [addSat_toNat, hm] at hfirst
    have hsum : (b.alter e.1 (addSat · e.2)).sum = b.sum + e.2.toNat := by omega
    rw [List.foldl_cons, ih (hb.alter _ _) (by omega), hsum, Nat.add_assoc]

end Bins

namespace Histogram

variable {h : Histogram} {d : Distribution}

theorem addTo_eq (h : Histogram) (d : Distribution) :
    h.addTo d = d.recordAll (h.bins.entries.map fun e => (Bin.low e.1, e.2)) := by
  rw [Distribution.recordAll, List.foldl_map]
  rfl

theorem highest_addTo (h : Histogram) (d : Distribution) : (h.addTo d).highest = d.highest := by
  rw [addTo_eq]
  induction h.bins.entries.map fun e => (Bin.low e.1, e.2) generalizing d with
  | nil => rfl
  | cons e l ih => exact (ih (d.record e.1 e.2)).trans Distribution.highest_record

/-- The counts of a histogram are added bin by bin. -/
theorem Sound.bins_addTo (hs : h.Sound) (hd : d.highest = (Distribution.empty h.highest).highest) :
    (h.addTo d).bins = h.bins.entries.foldl (fun b e => b.alter e.1 (addSat · e.2)) d.bins := by
  rw [addTo_eq, Distribution.bins_recordAll fun e he => hd ▸ (hs.mem_replayed he).2.2,
    List.foldl_map]
  apply List.foldl_ext
  intro b e he
  dsimp only
  rw [hs.index_low (List.mem_filter.mp he).1]

end Histogram

namespace Distribution

variable {highest : UInt64} {d : Distribution} {values : List UInt64}

/-- A distribution for a bound has the counts of some values, larger ones as the bound. -/
structure Counted (highest : UInt64) (d : Distribution) (values : List UInt64) : Prop where
  highest_eq : d.highest = (Distribution.empty highest).highest
  ascending : d.bins.Ascending
  get_eq (bin : UInt64) : (d.bins.get bin).toNat = values.countP fun v =>
    Bin.index (Min.min v highest) = bin
  sum_eq : d.bins.sum = values.length

theorem counted_empty (highest : UInt64) : Counted highest (Distribution.empty highest) [] :=
  ⟨rfl, Bins.ascending_empty, fun _ => rfl, rfl⟩

theorem Counted.perm {more : List UInt64} (h : Counted highest d values)
    (hperm : values.Perm more) :
    Counted highest d more where
  highest_eq := h.highest_eq
  ascending := h.ascending
  get_eq bin := (h.get_eq bin).trans (hperm.countP_eq _)
  sum_eq := h.sum_eq.trans hperm.length_eq

theorem Counted.count_eq (h : Counted highest d values) (hfits : values.length < 2 ^ 64) :
    d.count = UInt64.ofNat values.length := by
  rw [count, h.sum_eq]
  apply UInt64.toNat_inj.mp
  rw [ofNatSat_toNat, UInt64.toNat_ofNat']
  omega

/-- **A histogram is merged without a loss**, as long as all values can be counted. -/
theorem Counted.addTo (h : Counted highest d values) (more : List UInt64)
    (hfits : values.length + more.length < 2 ^ 64) :
    Counted highest (((Histogram.empty highest).recordAll (more.map (·, 1))).addTo d)
      (values ++ more) := by
  have hs := (Histogram.sound_empty highest).recordAll (more.map (·, 1))
  have hsum : ((Histogram.empty highest).recordAll (more.map (·, 1))).bins.sum = more.length := by
    have hones : ((more.map fun v => (v, (1 : UInt64))).map (·.2.toNat)).sum = more.length := by
      simp [Function.comp_def]
    have hall := ((Histogram.sound_empty highest).bins_recordAll (more.map (·, 1)) (by
      rw [hones]
      exact Nat.lt_of_le_of_lt (Nat.add_le_add_right (Nat.zero_le _) _) hfits)).2
    rw [hones] at hall
    exact hall.trans (Nat.zero_add _)
  have hget (bin : UInt64) :
      (((Histogram.empty highest).recordAll (more.map (·, 1))).bins.get bin).toNat =
        more.countP fun v => Bin.index (Min.min v highest) = bin := by
    have hle := List.countP_le_length (p := fun v =>
      decide (Bin.index (Min.min v highest) = bin)) (l := more)
    have hrecorded : ((Histogram.empty highest).recordAll (more.map (·, 1))).bins.get bin =
        0 + UInt64.ofNat (more.countP fun v => Bin.index (Min.min v highest) = bin) :=
      (Histogram.sound_empty highest).get_recordAll more bin
    rw [hrecorded, UInt64.zero_add, UInt64.toNat_ofNat']
    exact Nat.mod_eq_of_lt (by omega)
  have hhighest : ((Histogram.empty highest).recordAll (more.map (·, 1))).highest = highest :=
    Histogram.highest_recordAll
  generalize (Histogram.empty highest).recordAll (more.map (·, 1)) = g at hs hsum hget hhighest ⊢
  have hbins := hs.bins_addTo (d := d) (by rw [h.highest_eq, hhighest])
  have hentries : (g.bins.entries.map (·.2.toNat)).sum = more.length := hsum
  obtain ⟨hascending, hcounts⟩ : (g.addTo d).bins.Ascending ∧ ∀ bin,
      (g.addTo d).bins.get bin = addSat (d.bins.get bin) (g.bins.get bin) := by
    rw [hbins]
    refine ⟨(h.ascending.get_foldl_alter hs.ascending.entries 0).1, fun bin => ?_⟩
    rw [← hs.ascending.get_entries bin]
    exact (h.ascending.get_foldl_alter hs.ascending.entries bin).2
  refine ⟨(g.highest_addTo d).trans h.highest_eq, hascending, fun bin => ?_, ?_⟩
  · have hle := h.ascending.get_le_sum bin
    have hle' := hs.ascending.get_le_sum bin
    have hm : maxWord.toNat = 2 ^ 64 - 1 := rfl
    have htotal := h.sum_eq
    rw [hcounts, addSat_toNat, h.get_eq, hget, List.countP_append]
    rw [h.get_eq] at hle
    rw [hget] at hle'
    omega
  · rw [hbins, h.ascending.sum_foldl_alter _ (by rw [h.sum_eq, hentries]; exact hfits), hentries,
      h.sum_eq, List.length_append]

end Distribution

/-! ## Timings -/

/-- A latency that is recorded for a key at a timestamp. -/
structure Timing (K : Type) where
  key : K
  nanos : UInt64
  now : UInt64
deriving DecidableEq, Repr

namespace Timing

variable {K : Type}

/-- A timing as a tally of one. -/
def tally (t : Timing K) : Tally K := ⟨t.key, 1, t.now⟩

/-- The timings of a slot, unless it was overtaken. -/
def inSlot (shape : Shape) (ts : List (Timing K)) (slot : UInt64) : List (Timing K) :=
  (ts.filter fun t => ∀ u ∈ ts, ¬ shape.Overtakes (shape.slotOf u.now) (shape.slotOf t.now)).filter
    fun t => shape.slotOf t.now = slot

/-- The timings that a query over a span finds: their slots are covered by the span, and were never
overtaken. -/
def found (shape : Shape) (ts : List (Timing K)) (span : Duration) (now : UInt64) :
    List (Timing K) :=
  ts.filter fun t => shape.Covers span now (shape.slotOf t.now) ∧
    ∀ u ∈ ts, ¬ shape.Overtakes (shape.slotOf u.now) (shape.slotOf t.now)

/-- The timings that a query finds are those of the slots of its walk. -/
theorem perm_found (shape : Shape) (ts : List (Timing K)) (span : Duration) (now : UInt64) :
    ((Shape.slotsEnding (shape.slotOf now) (shape.bucketsFor span)).flatMap (inSlot shape ts)).Perm
      (found shape ts span now) := by
  refine (perm_flatMap_filter (fun t : Timing K =>
    shape.slotOf t.now) (Shape.nodup_slotsEnding _ _) _).trans ?_
  rw [List.filter_filter, found]
  refine .of_eq (List.filter_congr fun t _ => ?_)
  have hmem : shape.slotOf t.now ∈ Shape.slotsEnding (shape.slotOf now) (shape.bucketsFor span) ↔
      shape.Covers span now (shape.slotOf t.now) := by
    rw [Shape.mem_slotsEnding (shape.bucketsFor_ne_zero span), shape.bucketsFor_toNat]
    rfl
  simp only [hmem, Bool.decide_and]

/-- Tallies of one are found as the timings are. -/
theorem counted_tally (shape : Shape) (ts : List (Timing K)) (p : K → Bool) (span : Duration)
    (now : UInt64) :
    Tally.counted shape (ts.map tally) p span now =
      ((found shape ts span now).filter (p ·.key)).length := by
  have hamount (us : List (Timing K)) : Tally.amount (us.map tally) = us.length := by
    simp [Tally.amount, tally, Function.comp_def]
  have hkept : Tally.kept shape (ts.map tally) =
      (ts.filter fun t => ∀ u ∈ ts,
        ¬ shape.Overtakes (shape.slotOf u.now) (shape.slotOf t.now)).map tally := by
    rw [Tally.kept, List.filter_map]
    refine congrArg _ (List.filter_congr fun t _ => ?_)
    simp only [Function.comp_apply, List.forall_mem_map]
    rfl
  rw [Tally.counted, hkept, List.filter_map, hamount, List.filter_filter, found, List.filter_filter]
  refine congrArg _ (List.filter_congr fun t _ => Bool.eq_iff_iff.mpr ?_)
  rw [Function.comp_apply, Bool.and_eq_true, Bool.and_eq_true, decide_eq_true_iff,
    decide_eq_true_iff, decide_eq_true_iff]
  exact and_assoc

end Timing

namespace LatencyAccumulator

variable {K : Type} [MetricKey K]

/-- An accumulator for latencies up to a bound after some timings. -/
def ofTimings (highest : UInt64) (ts : List (Timing K)) : LatencyAccumulator K :=
  ts.foldl (fun a t => a.record t.key t.nanos) (empty highest)

theorem holds_ofTimings [DecidableEq K] (highest : UInt64) (ts : List (Timing K)) :
    Holds highest (ofTimings highest ts) (ts.map fun t => (t.key, t.nanos)) := by
  induction ts using List.reverseRecOn with
  | nil => exact holds_empty highest
  | append_singleton ts t ih =>
    rw [ofTimings, List.foldl_append, List.map_append]
    exact ih.record t.key t.nanos

/-- Adds the latencies of some keys to a distribution. -/
def addAllTo (a : LatencyAccumulator K) (keys : List K) (d : Distribution) : Distribution :=
  keys.foldl (fun d key => a.addTo key d) d

theorem addAllTo_empty (highest : UInt64) (keys : List K) (d : Distribution) :
    (empty highest : LatencyAccumulator K).addAllTo keys d = d := by
  refine List.foldl_fixed' (fun key => ?_) keys
  rw [addTo, get?_empty]

/-- A key that was never recorded has an empty histogram. -/
theorem addTo_eq (a : LatencyAccumulator K) (key : K) (d : Distribution) :
    a.addTo key d = (a.histogram key).addTo d := by
  rw [addTo, histogram]
  cases a.get? key with
  | none => rfl
  | some h => rfl

/-- The latencies of some keys are added to a distribution without a loss, as long as they can be
counted. -/
theorem counted_addAllTo [DecidableEq K] {highest : UInt64} {d : Distribution}
    {values : List UInt64}
    (h : d.Counted highest values) (ts : List (Timing K)) (keys : List K)
    (hfits : values.length + (keys.flatMap fun key => ts.filter (·.key = key)).length < 2 ^ 64) :
    ((ofTimings highest ts).addAllTo keys d).Counted highest
      (values ++ (keys.flatMap fun key => ts.filter (·.key = key)).map (·.nanos)) := by
  induction keys generalizing d values with
  | nil => simpa [addAllTo] using h
  | cons key keys ih =>
    have hvalues : valuesOf key (ts.map fun t => (t.key, t.nanos)) =
        (ts.filter (·.key = key)).map (·.nanos) := by
      rw [valuesOf, List.filter_map, List.map_map]
      rfl
    rw [List.flatMap_cons, List.length_append] at hfits
    have hfirst := h.addTo ((ts.filter (·.key = key)).map (·.nanos)) (by
      rw [List.length_map]
      omega)
    rw [← hvalues, ← (holds_ofTimings highest ts).histogram_eq, ← addTo_eq, hvalues] at hfirst
    have hrest := ih hfirst (by
      rw [List.length_append, List.length_map]
      omega)
    rw [List.flatMap_cons, List.map_append, ← List.append_assoc]
    exact hrest

end LatencyAccumulator

namespace RollingLatency

variable {K : Type} [MetricKey K]

/-- Rolling latencies after a history of timings, the earliest first. -/
def after (shape : Shape) (highest : UInt64) (ts : List (Timing K)) : RollingLatency K :=
  ts.foldl (fun r t => r.record t.key t.nanos t.now) (empty shape highest)

/-- What a timing does to the accumulator of its slot. -/
def writeOf (t : Timing K) : Window.Write (LatencyAccumulator K) :=
  ⟨t.now, (·.record t.key t.nanos)⟩

variable {shape : Shape} {highest : UInt64} {ts : List (Timing K)}

theorem after_snoc (t : Timing K) :
    after shape highest (ts ++ [t]) = (after shape highest ts).record t.key t.nanos t.now := by
  simp [after, List.foldl_append]

@[simp] theorem highest_after : (after shape highest ts).highest = highest := by
  induction ts using List.reverseRecOn with
  | nil => rfl
  | append_singleton ts t ih =>
    rw [after_snoc]
    exact ih

theorem window_after :
    (after shape highest ts).window = Window.after shape (.empty highest) (ts.map writeOf) := by
  induction ts using List.reverseRecOn with
  | nil => rfl
  | append_singleton ts t ih =>
    rw [after_snoc, List.map_append, List.map_singleton, Window.after_snoc, ← ih, record,
      highest_after]
    rfl

/-- What is stored for one slot: all its timings, unless the slot was overtaken. -/
theorem getD_stored?_after (slot : UInt64) :
    ((after shape highest ts).window.stored? slot).getD (.empty highest) =
      LatencyAccumulator.ofTimings highest (Timing.inSlot shape ts slot) := by
  rw [window_after]
  exact Window.getD_stored?_after shape (.empty highest) writeOf ts slot

/-- The latencies of some keys over a trailing span. -/
def gather (r : RollingLatency K) (keys : List K) (span : Duration) (now : UInt64) : Distribution :=
  (r.window.intervalsOver now span).foldl (fun d i => i.value.addAllTo keys d) (.empty r.highest)

/-- A query for some keys merges what is stored for the slots of its walk. -/
theorem gather_after (keys : List K) (span : Duration) (now : UInt64) :
    (after shape highest ts).gather keys span now =
      (Shape.slotsEnding (shape.slotOf now) (shape.bucketsFor span)).foldl
        (fun d slot =>
          (LatencyAccumulator.ofTimings highest (Timing.inSlot shape ts slot)).addAllTo keys d)
        (.empty highest) := by
  have hshape : (after shape highest ts).window.shape = shape := by
    rw [window_after, Window.shape_after]
  have hvalues := Window.values_intervalsOver (after shape highest ts).window now span
  have hmap (is : List (Window.Interval (LatencyAccumulator K))) (d : Distribution) :
      is.foldl (fun d i => i.value.addAllTo keys d) d =
        (is.map (·.value)).foldl (fun d a => a.addAllTo keys d) d := by rw [List.foldl_map]
  rw [hshape] at hvalues
  rw [gather, hmap, hvalues, List.foldl_filterMap, highest_after]
  refine List.foldl_ext _ _ _ fun d slot _ => ?_
  rw [← getD_stored?_after]
  cases (after shape highest ts).window.stored? slot with
  | none => exact (LatencyAccumulator.addAllTo_empty highest keys d).symm
  | some a => rfl

/-- The histograms of some slots are merged without a loss, as long as their values can be
counted. -/
theorem counted_slots [DecidableEq K] (keys : List K) (slots : List UInt64) {d : Distribution}
    {values : List UInt64}
    (h : d.Counted highest values)
    (hfits : values.length + (slots.flatMap fun slot => keys.flatMap fun key =>
      (Timing.inSlot shape ts slot).filter (·.key = key)).length < 2 ^ 64) :
    (slots.foldl (fun d slot =>
        (LatencyAccumulator.ofTimings highest (Timing.inSlot shape ts slot)).addAllTo keys d)
          d).Counted highest
      (values ++ (slots.flatMap fun slot => keys.flatMap fun key =>
        (Timing.inSlot shape ts slot).filter (·.key = key)).map (·.nanos)) := by
  induction slots generalizing d values with
  | nil => simpa using h
  | cons slot slots ih =>
    rw [List.flatMap_cons, List.length_append] at hfits
    have hfirst :=
      LatencyAccumulator.counted_addAllTo h (Timing.inSlot shape ts slot) keys (by omega)
    have hrest := ih hfirst (by
      rw [List.length_append, List.length_map]
      omega)
    rw [List.flatMap_cons, List.map_append, ← List.append_assoc]
    exact hrest

section Queries

variable [DecidableEq K] {span : Duration} {now : UInt64}
  (hfits : (Timing.found shape ts span now).length < 2 ^ 64)
include hfits

/-- **What a query for some keys tells** are the timings of these keys that it finds. -/
theorem counted_gather {keys : List K} (hkeys : keys.Nodup) :
    ((after shape highest ts).gather keys span now).Counted highest
      (((Timing.found shape ts span now).filter (·.key ∈ keys)).map (·.nanos)) := by
  have hperm : ((Shape.slotsEnding (shape.slotOf now) (shape.bucketsFor span)).flatMap fun slot =>
      keys.flatMap fun key => (Timing.inSlot shape ts slot).filter (·.key = key)).Perm
        ((Timing.found shape ts span now).filter (·.key ∈ keys)) := by
    refine (List.Perm.flatMap_left _ fun slot _ => perm_flatMap_filter Timing.key hkeys _).trans ?_
    rw [← List.filter_flatMap]
    exact (Timing.perm_found shape ts span now).filter _
  rw [gather_after]
  refine (counted_slots keys _ (Distribution.counted_empty highest) ?_).perm (hperm.map _)
  rw [hperm.length_eq]
  exact Nat.lt_of_le_of_lt ((Nat.zero_add _).trans_le (List.length_filter_le _ _)) hfits

theorem counted_snapshotOver (key : K) :
    ((after shape highest ts).snapshotOver key span now).Counted highest
    (((Timing.found shape ts span now).filter (·.key = key)).map (·.nanos)) := by
  have h : ((after shape highest ts).gather [key] span now).Counted highest _ :=
    counted_gather hfits (List.nodup_singleton key)
  simp only [List.mem_singleton] at h
  exact h

theorem counted_snapshotAllOver :
    ((after shape highest ts).snapshotAllOver span now).Counted highest
    ((Timing.found shape ts span now).map (·.nanos)) := by
  have h : ((after shape highest ts).gather (variants K) span now).Counted highest _ :=
    counted_gather hfits nodup_variants
  simp only [mem_variants, decide_true, List.filter_true] at h
  exact h

end Queries

/-- A span of all buckets looks back over all of them. -/
theorem snapshot_eq (key : K) {span : Duration} {now : UInt64}
    (hlong : shape.bucketCount.toNat * shape.width.toNat ≤ span.nanos)
    (hfits : shape.bucketCount.toNat * shape.width.toNat < 2 ^ 64) :
    (after shape highest ts).snapshot key now =
    (after shape highest ts).snapshotOver key span now := by
  have hshape : (after shape highest ts).window.shape = shape := by
    rw [window_after, Window.shape_after]
  have hall : shape.bucketsFor span = shape.bucketCount := by
    apply UInt64.toNat_inj.mp
    rw [Shape.bucketsFor_toNat, Shape.reach]
    have hle : shape.bucketCount.toNat ≤
        (min span.nanos (2 ^ 64 - 1) + shape.width.toNat - 1) / shape.width.toNat := by
      rw [Nat.le_div_iff_mul_le shape.width_pos]
      have := shape.width_pos
      omega
    omega
  rw [snapshot, snapshotOver, Window.intervals, Window.intervalsOver, Window.cursor,
    Window.cursorOver, hshape, hall]

/-- **The queries of rolling latencies agree.** Whatever the shape, the bound, and the order of the
timestamps: as long as the timings that a query finds can be counted, the query for a key has in
every bin the number of those of the key, larger ones as the bound; and these are the timings whose
slots the span covers and no timing overtook. The query for all keys has the sums over the keys, bin
by bin. The query over the whole window is that over any span of at least all buckets, if these fit
the timeline. And rolling counts of the same shape, to which each timing adds one, tell as many. -/
theorem queries_agree [DecidableEq K] (shape : Shape) (highest : UInt64) (ts : List (Timing K))
    (span : Duration)
    (now : UInt64)
    (hfits : (ts.filter fun t => shape.Covers span now (shape.slotOf t.now) ∧
      ∀ u ∈ ts, ¬ shape.Overtakes (shape.slotOf u.now) (shape.slotOf t.now)).length < 2 ^ 64) :
    let r := after shape highest ts
    (∀ key bin, ((r.snapshotOver key span now).bins.get bin).toNat =
      ts.countP fun t => t.key = key ∧ Bin.index (min t.nanos highest) = bin ∧
        shape.Covers span now (shape.slotOf t.now) ∧
        ∀ u ∈ ts, ¬ shape.Overtakes (shape.slotOf u.now) (shape.slotOf t.now)) ∧
    (∀ bin, ((r.snapshotAllOver span now).bins.get bin).toNat =
      ((variants K).map fun key => ((r.snapshotOver key span now).bins.get bin).toNat).sum) ∧
    (∀ key, shape.bucketCount.toNat * shape.width.toNat ≤ span.nanos →
      shape.bucketCount.toNat * shape.width.toNat < 2 ^ 64 →
        r.snapshot key now = r.snapshotOver key span now) ∧
    ∀ key, (r.snapshotOver key span now).count =
      (RollingCounts.after shape (ts.map Timing.tally)).countOver key span now := by
  intro r
  have hover (key : K) : (r.snapshotOver key span now).Counted highest _ :=
    counted_snapshotOver hfits key
  have hall : (r.snapshotAllOver span now).Counted highest _ := counted_snapshotAllOver hfits
  refine ⟨fun key bin => ?_, fun bin => ?_, fun key => snapshot_eq key, fun key => ?_⟩
  · rw [(hover key).get_eq, List.countP_map, List.countP_filter, Timing.found, List.countP_filter]
    refine List.countP_congr fun t _ => ?_
    simp only [Function.comp_apply, Bool.and_eq_true, decide_eq_true_iff]
    constructor
    · rintro ⟨⟨hbin, hkey⟩, hfound⟩
      exact ⟨hkey, hbin, hfound⟩
    · rintro ⟨hkey, hbin, hfound⟩
      exact ⟨⟨hbin, hkey⟩, hfound⟩
  · -- Every timing that is found is one of just one key.
    have hkeys :=
      perm_flatMap_filter Timing.key (nodup_variants (K := K)) (Timing.found shape ts span now)
    simp only [mem_variants, decide_true, List.filter_true] at hkeys
    rw [hall.get_eq, List.countP_map, ← hkeys.countP_eq, List.countP_flatMap]
    refine congrArg List.sum (List.map_congr_left fun key _ => ?_)
    rw [(hover key).get_eq, List.countP_map]
    rfl
  · have hlength :=
      List.length_filter_le (fun t : Timing K =>
      decide (t.key = key)) (Timing.found shape ts span now)
    rw [(hover key).count_eq (by
      rw [List.length_map]
      exact Nat.lt_of_le_of_lt hlength hfits), List.length_map, RollingCounts.countOver_eq_ofNat,
      Timing.counted_tally]

/-- Timings of two buckets of ten nanoseconds. The second one is lost, since its slot was overtaken
by the first; the third one is recorded as the bound, which is three thousand. -/
def backwards : List (Timing ActionResult) :=
  [⟨.success, 5, 25⟩, ⟨.success, 2500, 2⟩, ⟨.error, 4000, 28⟩, ⟨.success, 2049, 12⟩]

theorem queries_agree_backwards :
    let shape : Shape := ⟨2, 10, 0, by decide, by decide⟩
    let r := after shape 3000 backwards
    (backwards.filter fun t => shape.Covers ⟨20⟩ 29 (shape.slotOf t.now) ∧
      ∀ u ∈ backwards, ¬ shape.Overtakes (shape.slotOf u.now) (shape.slotOf t.now)).length <
        2 ^ 64 ∧
    ((r.snapshotOver .success ⟨20⟩ 29).bins.get (Bin.index 2049)).toNat = 1 ∧
    ((r.snapshotOver .success ⟨20⟩ 29).bins.get (Bin.index 2500)).toNat = 0 ∧
    ((r.snapshotAllOver ⟨20⟩ 29).bins.get (Bin.index 3000)).toNat = 1 ∧
    r.snapshot .success 29 = r.snapshotOver .success ⟨20⟩ 29 ∧
    (r.snapshotOver .success ⟨20⟩ 29).count =
      (RollingCounts.after shape (backwards.map Timing.tally)).countOver .success ⟨20⟩ 29 := by
  intro shape r
  have hfits : (backwards.filter fun t => shape.Covers ⟨20⟩ 29 (shape.slotOf t.now) ∧
      ∀ u ∈ backwards, ¬ shape.Overtakes (shape.slotOf u.now) (shape.slotOf t.now)).length <
        2 ^ 64 := by
    decide +kernel
  obtain ⟨hbins, hall, hwhole, hcounts⟩ := queries_agree shape 3000 backwards ⟨20⟩ 29 hfits
  refine ⟨hfits, ?_, ?_, ?_, hwhole .success (by decide) (by decide), hcounts .success⟩
  · rw [hbins]
    decide +kernel
  · rw [hbins]
    decide +kernel
  · rw [hall]
    simp only [hbins]
    decide +kernel

end RollingLatency

end Admission
