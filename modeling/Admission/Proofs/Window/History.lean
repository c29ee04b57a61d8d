import Admission.Proofs.Word
import Admission.Window.Basic
import Mathlib.Data.Nat.ModEq
import Mathlib.Data.List.Induction
import Mathlib.Data.List.Nodup

/-!
# What a window holds after a history of writes

A position of the ring ends up with the latest slot that was written at it, and the accumulator of
that slot has seen all writes to the slot, in their order, and no others. So a slot is stored if and
only if it was written and no write overtook it, whatever the order of the timestamps.

## Main definitions

* `Window.Write`, `Window.after`: a write, and the window after a history of them
* `Shape.Overtakes`: a later slot that needs the position of a slot
* `Window.valueAt`: the accumulator of a slot that has seen all writes to it
* `Shape.reach`, `Shape.Covers`: how many slots a span covers, and which slots these are

## Main results

* `holds_after`: what each position holds
* `stored?_after`: what is stored for each slot
* `Shape.mem_slotsEnding`, `Shape.nodup_slotsEnding`: the slots that a walk visits
* `Shape.bucketsFor_toNat`: a walk over a span visits as many slots as the span covers
* `Shape.Covers.not_overtakes`: up to the present, no covered slot is overtaken
-/

namespace Admission.Window

variable {α : Type}

/-- A later slot overtakes an earlier one when both need the same position of the ring. -/
def Shape.Overtakes (s : Shape) (later slot : UInt64) : Prop :=
  slot < later ∧ later.toNat ≡ slot.toNat [MOD s.capacity]

instance (s : Shape) (later slot : UInt64) : Decidable (s.Overtakes later slot) :=
  inferInstanceAs (Decidable (_ ∧ _))

theorem Shape.position_eq_iff {s : Shape} {a b : UInt64} :
    s.position a = s.position b ↔ a.toNat ≡ b.toNat [MOD s.capacity] := by
  simp [Shape.position, Nat.ModEq, Fin.ext_iff]

/-- A write to the slot of a timestamp. -/
structure Write (α : Type) where
  now : UInt64
  change : α → α

/-- The window after a history of writes, the earliest first. -/
def after (shape : Shape) (fresh : α) (writes : List (Write α)) : Window α :=
  writes.foldl (fun w x => w.update x.now fresh x.change) (empty shape)

/-- What a write to a slot makes of the bucket at its position. -/
def written (slot : UInt64) (fresh : α) (f : α → α) : Option (Bucket α) → Option (Bucket α)
  | none => some ⟨slot, f fresh⟩
  | some b =>
    if b.slot = slot then some ⟨slot, f b.value⟩
    else if slot < b.slot then some b
    else some ⟨slot, f fresh⟩

theorem bucketAt_update (w : Window α) (now : UInt64) (fresh : α) (f : α → α) (slot : UInt64) :
    (w.update now fresh f).bucketAt slot =
      if w.shape.position (w.shape.slotOf now) = w.shape.position slot
      then written (w.shape.slotOf now) fresh f (w.bucketAt slot) else w.bucketAt slot := by
  split_ifs with hp
  · have hb (u : Window α) (hu : u.shape = w.shape) :
        u.bucketAt slot = u.bucketAt (w.shape.slotOf now) := by
      obtain ⟨s, ring⟩ := u
      subst hu
      simp only [bucketAt, hp]
    rw [hb _ shape_update, hb w rfl]
    cases hat : w.bucketAt (w.shape.slotOf now) with
    | none => simp [update, place, hat, written]
    | some b =>
      by_cases heq : b.slot = w.shape.slotOf now
      · simp [update, place, hat, written, heq]
      · by_cases hlt : w.shape.slotOf now < b.slot
        · simp [update, place, hat, written, heq, hlt]
        · simp [update, place, hat, written, heq, hlt]
  · unfold update
    dsimp only
    split
    · exact bucketAt_put_of_ne hp
    · exact bucketAt_put_of_ne hp
    · rfl

/-- The accumulator that has seen all writes to a slot. -/
def valueAt (shape : Shape) (fresh : α) (writes : List (Write α)) (slot : UInt64) : α :=
  (writes.filter (shape.slotOf ·.now = slot)).foldl (fun a x => x.change a) fresh

section History

variable {shape : Shape} {fresh : α} {writes : List (Write α)} {x : Write α} {slot : UInt64}

@[simp] theorem after_nil : after shape fresh [] = (empty shape : Window α) := rfl

theorem after_snoc :
    after shape fresh (writes ++ [x]) = (after shape fresh writes).update x.now fresh x.change := by
  simp [after, List.foldl_append]

@[simp] theorem shape_after : (after shape fresh writes).shape = shape := by
  induction writes using List.reverseRecOn with
  | nil => rfl
  | append_singleton writes x ih => rw [after_snoc, shape_update, ih]

theorem valueAt_snoc_self (h : shape.slotOf x.now = slot) :
    valueAt shape fresh (writes ++ [x]) slot = x.change (valueAt shape fresh writes slot) := by
  simp [valueAt, List.filter_append, h]

theorem valueAt_snoc_of_ne (h : shape.slotOf x.now ≠ slot) :
    valueAt shape fresh (writes ++ [x]) slot = valueAt shape fresh writes slot := by
  simp [valueAt, List.filter_append, h]

theorem valueAt_of_unwritten (h : ∀ x ∈ writes, shape.slotOf x.now ≠ slot) :
    valueAt shape fresh writes slot = fresh := by
  have hn : writes.filter (shape.slotOf ·.now = slot) = [] := by
    simpa [List.filter_eq_nil_iff] using h
  rw [valueAt, hn, List.foldl_nil]

/-- What stands at the position of a slot after a history of writes: nothing if no write needed the
position, and otherwise the latest slot that was written there, with all writes to it. -/
def Holds (shape : Shape) (fresh : α) (writes : List (Write α)) (slot : UInt64) :
    Option (Bucket α) → Prop
  | none => ∀ x ∈ writes, shape.position (shape.slotOf x.now) ≠ shape.position slot
  | some b =>
    shape.position b.slot = shape.position slot ∧
    (∃ x ∈ writes, shape.slotOf x.now = b.slot) ∧
    (∀ x ∈ writes, shape.position (shape.slotOf x.now) = shape.position slot →
      shape.slotOf x.now ≤ b.slot) ∧
    b.value = valueAt shape fresh writes b.slot

/-- A write elsewhere on the ring changes nothing at a position. -/
theorem Holds.snoc_of_ne {o : Option (Bucket α)} (h : Holds shape fresh writes slot o)
    (hx : shape.position (shape.slotOf x.now) ≠ shape.position slot) :
    Holds shape fresh (writes ++ [x]) slot o := by
  match o with
  | none =>
    intro y hy
    rcases List.mem_append.mp hy with hy | hy
    · exact h y hy
    · rwa [List.mem_singleton.mp hy]
  | some b =>
    obtain ⟨hp, ⟨y, hy, hys⟩, hle, hv⟩ := h
    refine ⟨hp, ⟨y, List.mem_append_left _ hy, hys⟩, ?_, ?_⟩
    · intro z hz hzp
      rcases List.mem_append.mp hz with hz | hz
      · exact hle z hz hzp
      · rw [List.mem_singleton.mp hz] at hzp
        exact absurd hzp hx
    · rw [hv, valueAt_snoc_of_ne]
      rintro e
      exact hx (by rw [e, hp])

/-- A write that needs the position leaves the latest slot there, with all writes to it. -/
theorem Holds.snoc_written {o : Option (Bucket α)} (h : Holds shape fresh writes slot o)
    (hx : shape.position (shape.slotOf x.now) = shape.position slot) :
    Holds shape fresh (writes ++ [x]) slot (written (shape.slotOf x.now) fresh x.change o) := by
  -- The write starts from all earlier writes to its slot, if none of them was to a later one.
  have put (v : α) (hv : v = valueAt shape fresh writes (shape.slotOf x.now))
      (hle : ∀ y ∈ writes, shape.position (shape.slotOf y.now) = shape.position slot →
        shape.slotOf y.now ≤ shape.slotOf x.now) :
      Holds shape fresh (writes ++ [x]) slot (some ⟨shape.slotOf x.now, x.change v⟩) := by
    refine ⟨hx, ⟨x, by simp, rfl⟩, ?_, ?_⟩
    · intro y hy hyp
      rcases List.mem_append.mp hy with hy | hy
      · exact hle y hy hyp
      · rw [List.mem_singleton.mp hy]
        exact UInt64.le_refl _
    · rw [valueAt_snoc_self rfl, hv]
  cases o with
  | none =>
    refine put fresh ?_ fun y hy hyp => absurd hyp (h y hy)
    rw [valueAt_of_unwritten]
    rintro y hy e
    exact h y hy (by rw [e, hx])
  | some b =>
    obtain ⟨hp, ⟨y, hy, hys⟩, hle, hv⟩ := h
    rw [written]
    split_ifs with heq hlt
    · exact put b.value (heq ▸ hv) (heq ▸ hle)
    · -- The write comes too late for its position and is lost.
      refine ⟨hp, ⟨y, List.mem_append_left _ hy, hys⟩, ?_, ?_⟩
      · intro z hz hzp
        rcases List.mem_append.mp hz with hz | hz
        · exact hle z hz hzp
        · rw [List.mem_singleton.mp hz]
          exact UInt64.le_of_lt hlt
      · rw [hv, valueAt_snoc_of_ne (UInt64.ne_of_lt hlt)]
    · have hbx : b.slot < shape.slotOf x.now := UInt64.lt_of_le_of_ne (UInt64.not_lt.mp hlt) heq
      refine put fresh ?_ fun y hy hyp => UInt64.le_trans (hle y hy hyp) (UInt64.le_of_lt hbx)
      rw [valueAt_of_unwritten]
      rintro z hz e
      have := hle z hz (by rw [e, hx])
      rw [e] at this
      exact absurd hbx (UInt64.not_lt.mpr this)

/-- What each position holds after a history of writes. -/
theorem holds_after (shape : Shape) (fresh : α) (writes : List (Write α)) (slot : UInt64) :
    Holds shape fresh writes slot ((after shape fresh writes).bucketAt slot) := by
  induction writes using List.reverseRecOn generalizing slot with
  | nil =>
    have hn : (empty shape : Window α).bucketAt slot = none := by simp [empty, bucketAt]
    rw [after_nil, hn]
    intro x hx
    cases hx
  | append_singleton writes x ih =>
    rw [after_snoc, bucketAt_update, shape_after]
    split_ifs with hx
    · exact (ih slot).snoc_written hx
    · exact (ih slot).snoc_of_ne hx

/-- **A slot is stored if and only if it was written and never overtaken**, and then its accumulator
has seen all writes to it. -/
theorem stored?_after (shape : Shape) (fresh : α) (writes : List (Write α)) (slot : UInt64) :
    (after shape fresh writes).stored? slot =
      if (∃ x ∈ writes, shape.slotOf x.now = slot) ∧
          ∀ x ∈ writes, ¬ shape.Overtakes (shape.slotOf x.now) slot
      then some (valueAt shape fresh writes slot) else none := by
  have h := holds_after shape fresh writes slot
  unfold stored? place
  cases hat : (after shape fresh writes).bucketAt slot with
  | none =>
    rw [hat] at h
    rw [if_neg]
    rintro ⟨⟨x, hx, rfl⟩, -⟩
    exact h x hx rfl
  | some b =>
    rw [hat] at h
    obtain ⟨hp, ⟨y, hy, hys⟩, hle, hv⟩ := h
    dsimp only
    by_cases heq : b.slot = slot
    · subst heq
      have hno : ∀ x ∈ writes, ¬ shape.Overtakes (shape.slotOf x.now) b.slot := by
        rintro x hx ⟨hlt, hmod⟩
        exact absurd hlt (UInt64.not_lt.mpr (hle x hx (Shape.position_eq_iff.mpr hmod)))
      rw [if_pos rfl, if_pos ⟨⟨y, hy, hys⟩, hno⟩, hv]
    · rw [if_neg heq]
      have hc : ¬((∃ x ∈ writes, shape.slotOf x.now = slot) ∧
          ∀ x ∈ writes, ¬ shape.Overtakes (shape.slotOf x.now) slot) := by
        rintro ⟨⟨x, hx, rfl⟩, hno⟩
        -- The stored slot is the latest at the position, so it overtook this one.
        have hlt := UInt64.lt_of_le_of_ne (hle x hx rfl) (Ne.symm heq)
        exact hno y hy ⟨hys ▸ hlt, by rw [hys]; exact Shape.position_eq_iff.mp hp⟩
      rw [if_neg hc]
      split_ifs <;> rfl

/-- What a slot holds: what all its writes made of a fresh accumulator, unless the slot was
overtaken. -/
theorem getD_stored?_after {ι : Type} (shape : Shape) (fresh : α) (writeOf : ι → Write α)
    (items : List ι)
    (slot : UInt64) :
    ((after shape fresh (items.map writeOf)).stored? slot).getD fresh =
      ((items.filter fun x => ∀ y ∈ items, ¬ shape.Overtakes (shape.slotOf (writeOf y).now)
        (shape.slotOf (writeOf x).now)).filter fun x => shape.slotOf (writeOf x).now = slot).foldl
          (fun a x => (writeOf x).change a) fresh := by
  have hval : valueAt shape fresh (items.map writeOf) slot =
      (items.filter fun x => shape.slotOf (writeOf x).now = slot).foldl (fun a x =>
        (writeOf x).change a) fresh := by
    rw [valueAt, List.filter_map, List.foldl_map]
    rfl
  rw [stored?_after, hval, List.filter_filter]
  by_cases hover : ∃ y ∈ items, shape.Overtakes (shape.slotOf (writeOf y).now) slot
  · -- The slot has lost its place, and its writes do not count.
    obtain ⟨y, hy, ho⟩ := hover
    rw [if_neg fun h => h.2 _ (List.mem_map_of_mem hy) ho, List.filter_eq_nil_iff.mpr]
    · rfl
    · intro x _ hx
      simp only [Bool.and_eq_true, decide_eq_true_eq] at hx
      obtain ⟨rfl, hno⟩ := hx
      exact hno y hy ho
  · have hno : ∀ y ∈ items, ¬ shape.Overtakes (shape.slotOf (writeOf y).now) slot :=
      fun y hy ho => hover ⟨y, hy, ho⟩
    have hkept :
        items.filter (fun x => decide (shape.slotOf (writeOf x).now = slot) && decide (∀ y ∈ items,
          ¬ shape.Overtakes (shape.slotOf (writeOf y).now) (shape.slotOf (writeOf x).now))) =
          items.filter fun x => shape.slotOf (writeOf x).now = slot := by
      refine List.filter_congr fun x _ => ?_
      simp only [Bool.and_eq_left_iff_imp, decide_eq_true_eq]
      rintro rfl
      exact hno
    rw [hkept]
    split_ifs with hc
    · rfl
    · -- Nothing was written to the slot.
      rw [List.filter_eq_nil_iff.mpr]
      · rfl
      · intro x hx
        simp only [decide_eq_true_eq]
        intro e
        refine hc ⟨⟨writeOf x, List.mem_map_of_mem hx, e⟩, ?_⟩
        intro z hz
        obtain ⟨y, hy, rfl⟩ := List.mem_map.mp hz
        exact hno y hy

end History

/-! ## The slots that a walk visits -/

/-- The number of slots that a span covers: rounded up, at least one and at most all. A span that is
longer than the timeline counts as the largest word. -/
def Shape.reach (s : Shape) (span : Duration) : Nat :=
  min (max ((min span.nanos (2 ^ 64 - 1) + s.width.toNat - 1) / s.width.toNat) 1)
    s.bucketCount.toNat

/-- The slots that the span up to `now` covers: as many as it reaches, ending at the slot of
`now`. -/
def Shape.Covers (s : Shape) (span : Duration) (now slot : UInt64) : Prop :=
  slot ≤ s.slotOf now ∧ (s.slotOf now).toNat < slot.toNat + s.reach span

instance (s : Shape) (span : Duration) (now slot : UInt64) : Decidable (s.Covers span now slot) :=
  inferInstanceAs (Decidable (_ ∧ _))

namespace Shape

theorem width_pos (s : Shape) : 0 < s.width.toNat :=
  Nat.pos_of_ne_zero fun h => s.width_ne_zero (UInt64.toNat_inj.mp h)

theorem bucketCount_pos (s : Shape) : 0 < s.bucketCount.toNat :=
  Nat.pos_of_ne_zero fun h => s.bucketCount_ne_zero (UInt64.toNat_inj.mp h)

theorem reach_pos (s : Shape) (span : Duration) : 0 < s.reach span := by
  have := s.bucketCount_pos
  unfold reach
  omega

theorem reach_le_capacity (s : Shape) (span : Duration) : s.reach span ≤ s.capacity := by
  have h : s.reach span ≤ s.bucketCount.toNat := Nat.min_le_right _ _
  exact h.trans (le_ceilPow2 _)

/-- The number of whole widths that a span needs, as the window computes it. -/
theorem ceilDiv_toNat {a w : UInt64} (hw : 0 < w.toNat) :
    (if a % w = 0 then a / w else a / w + 1).toNat = (a.toNat + w.toNat - 1) / w.toNat := by
  have hdiv := Nat.div_add_mod a.toNat w.toNat
  have hlt := Nat.mod_lt a.toNat hw
  have ha := a.toNat_lt
  have hzero : a % w = 0 ↔ a.toNat % w.toNat = 0 := by
    rw [← UInt64.toNat_inj, UInt64.toNat_mod]
    rfl
  generalize hq : a.toNat / w.toNat = q at hdiv
  generalize hr : a.toNat % w.toNat = r at hdiv hlt hzero
  split_ifs with h
  · rw [UInt64.toNat_div, hq]
    refine (Nat.div_eq_of_lt_le ?_ ?_).symm
    · rw [Nat.mul_comm]
      omega
    · rw [Nat.succ_mul, Nat.mul_comm]
      have := hzero.mp h
      omega
  · have hpos : 0 < r := Nat.pos_of_ne_zero fun e => h (hzero.mpr e)
    -- The width is two at least, so the quotient is far from the largest word.
    have htwo : q * 2 ≤ w.toNat * q := by
      rw [Nat.mul_comm]
      exact Nat.mul_le_mul_right q (by omega)
    have hone : (a / w + 1).toNat = q + 1 := by
      rw [UInt64.toNat_add, UInt64.toNat_div, hq]
      exact Nat.mod_eq_of_lt (by simp only [UInt64.reduceToNat]; omega)
    rw [hone]
    refine (Nat.div_eq_of_lt_le ?_ ?_).symm
    · rw [Nat.succ_mul, Nat.mul_comm]
      omega
    · rw [Nat.succ_mul, Nat.succ_mul, Nat.mul_comm]
      omega

theorem bucketsFor_toNat (s : Shape) (span : Duration) :
    (s.bucketsFor span).toNat = s.reach span := by
  have hn := ceilDiv_toNat (a := span.toWord) s.width_pos
  rw [Duration.toWord_toNat] at hn
  have hb := s.bucketCount_pos
  unfold bucketsFor reach
  dsimp only
  generalize (if span.toWord % s.width = 0 then span.toWord / s.width
    else span.toWord / s.width + 1) = n at hn ⊢
  rw [← hn]
  split_ifs with hz hlt
  · subst hz
    simp only [UInt64.reduceToNat]
    omega
  · rw [UInt64.lt_iff_toNat_lt] at hlt
    omega
  · rw [UInt64.lt_iff_toNat_lt] at hlt
    have : n.toNat ≠ 0 := fun e => hz (UInt64.toNat_inj.mp e)
    omega

/-- Among the slots that a span up to `now` covers, none is overtaken by a slot up to that of
`now`. -/
theorem Covers.not_overtakes {s : Shape} {span : Duration} {now slot later : UInt64}
    (h : s.Covers span now slot) (hl : later ≤ s.slotOf now) : ¬ s.Overtakes later slot := by
  rintro ⟨hlt, hmod⟩
  obtain ⟨-, hreach⟩ := h
  rw [UInt64.lt_iff_toNat_lt] at hlt
  rw [UInt64.le_iff_toNat_le] at hl
  -- Slots that share a position are at least the whole ring apart.
  have hdvd : s.capacity ∣ later.toNat - slot.toNat := (Nat.modEq_iff_dvd' hlt.le).mp hmod.symm
  have hcap := Nat.le_of_dvd (by omega) hdvd
  have := s.reach_le_capacity span
  omega

theorem bucketsFor_ne_zero (s : Shape) (span : Duration) : s.bucketsFor span ≠ 0 := by
  intro h
  have := s.bucketsFor_toNat span
  rw [h] at this
  exact absurd this (Nat.ne_of_lt (s.reach_pos span))

theorem mem_slotsEnding {last n slot : UInt64} (hn : n ≠ 0) :
    slot ∈ slotsEnding last n ↔ slot ≤ last ∧ last.toNat < slot.toNat + n.toNat := by
  have hpos : 0 < n.toNat := Nat.pos_of_ne_zero fun h => hn (UInt64.toNat_inj.mp h)
  have hone : (n - 1).toNat = n.toNat - 1 := by
    rw [UInt64.toNat_sub_of_le]
    · rfl
    · rw [UInt64.le_iff_toNat_le]
      exact hpos
  have hfirst : (subSat last (n - 1)).toNat = last.toNat - (n.toNat - 1) := by
    rw [subSat_toNat, hone]
  have hlast := last.toNat_lt
  have hlen : (last - subSat last (n - 1)).toNat = last.toNat - (last.toNat - (n.toNat - 1)) := by
    rw [UInt64.toNat_sub_of_le, hfirst]
    rw [UInt64.le_iff_toNat_le, hfirst]
    omega
  simp only [slotsEnding, List.mem_map, List.mem_range, hlen]
  rw [UInt64.le_iff_toNat_le]
  constructor
  · rintro ⟨i, hi, rfl⟩
    have : (subSat last (n - 1) + UInt64.ofNat i).toNat = last.toNat - (n.toNat - 1) + i := by
      rw [UInt64.toNat_add, hfirst, UInt64.toNat_ofNat']
      omega
    omega
  · rintro ⟨hle, hlt⟩
    refine ⟨slot.toNat - (last.toNat - (n.toNat - 1)), by omega, ?_⟩
    rw [← UInt64.toNat_inj, UInt64.toNat_add, hfirst, UInt64.toNat_ofNat']
    omega

theorem nodup_slotsEnding (last n : UInt64) : (slotsEnding last n).Nodup := by
  refine List.Nodup.map_on ?_ List.nodup_range
  intro i hi j hj h
  have hlast := last.toNat_lt
  have hbound : (last - subSat last (n - 1)).toNat ≤ last.toNat := by
    rw [UInt64.toNat_sub_of_le]
    · omega
    · rw [UInt64.le_iff_toNat_le, subSat_toNat]
      omega
  have h := congrArg UInt64.toNat (UInt64.add_right_inj _ |>.mp h)
  rw [UInt64.toNat_ofNat', UInt64.toNat_ofNat'] at h
  rw [List.mem_range] at hi hj
  omega

end Shape

/-- The accumulators that a walk over a span finds, oldest first. -/
theorem values_intervalsOver (w : Window α) (now : UInt64) (span : Duration) :
    (w.intervalsOver now span).map (·.value) =
      (Shape.slotsEnding (w.shape.slotOf now) (w.shape.bucketsFor span)).filterMap w.stored? := by
  rw [intervalsOver, Cursor.toList, cursorOver, List.map_filterMap]
  refine List.filterMap_congr fun slot _ => ?_
  rw [interval?, Option.map_map]
  cases w.stored? slot <;> rfl

end Admission.Window
