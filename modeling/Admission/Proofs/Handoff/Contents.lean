import Admission.Handoff.Ring
import Admission.Proofs.Word
import Mathlib.Data.List.Basic
import Mathlib.Data.Nat.ModEq

/-!
# What a handoff ring holds

Between its cursors a ring holds a list of items, oldest first. The cursors are words that go around
the end of their range. Since the number of places is a power of two that divides the range, the
places go around with them, and any places in a row that are no more than there are differ from each
other.

## Main definitions

* `Handoff.slotAt`: what stands at the place of a cursor
* `Handoff.Holds`: a ring holds a list of items

## Main results

* `Handoff.Holds.offer_of_lt`, `Handoff.Holds.offer_of_le`: an item goes to the end of the list, or
  is handed back
* `Handoff.Holds.poll_nil`, `Handoff.Holds.poll_cons`: items come from the front of the list
* `Handoff.Holds.toList_eq`: the list is what stands between the cursors
-/

namespace Admission

namespace Handoff

variable {α : Type} {r : Handoff α} {items : List α}

/-- What stands at the place of a cursor. -/
def slotAt (r : Handoff α) (cursor : UInt64) : Option α := r.slots[(r.position cursor).val]

/-- A ring holds certain items, which stand from its head on in their order. -/
structure Holds (r : Handoff α) (items : List α) : Prop where
  capacity : ∃ k, k < 64 ∧ r.capacity = 2 ^ k
  le_capacity : items.length ≤ r.capacity
  tail : r.tail = r.head + UInt64.ofNat items.length
  slots : ∀ i, i < items.length → r.slotAt (r.head + UInt64.ofNat i) = items[i]?

/-! ## Places -/

/-- Places go around with the cursors. -/
theorem position_add (h : ∃ k, k < 64 ∧ r.capacity = 2 ^ k) (cursor : UInt64) (i : Nat) :
    (r.position (cursor + UInt64.ofNat i)).val = (cursor.toNat + i) % r.capacity := by
  obtain ⟨k, hk, hcap⟩ := h
  have hdvd : r.capacity ∣ 2 ^ 64 := hcap ▸ Nat.pow_dvd_pow 2 hk.le
  simp only [position, UInt64.toNat_add, UInt64.toNat_ofNat', Nat.add_mod_mod]
  exact Nat.mod_mod_of_dvd _ hdvd

/-- Places in a row that are no more than there are differ from each other. -/
theorem position_add_ne (h : ∃ k, k < 64 ∧ r.capacity = 2 ^ k) (cursor : UInt64) {i j : Nat}
    (hi : i < r.capacity) (hj : j < r.capacity) (hij : i ≠ j) :
    (r.position (cursor + UInt64.ofNat i)).val ≠ (r.position (cursor + UInt64.ofNat j)).val := by
  rw [position_add h, position_add h]
  intro heq
  have hmod : i ≡ j [MOD r.capacity] := Nat.ModEq.add_left_cancel' cursor.toNat heq
  exact hij (hmod.eq_of_lt_of_lt hi hj)

/-! ## The items of a ring -/

namespace Holds

/-- The number of items is a word, since the number of places is. -/
theorem length_lt (h : r.Holds items) : items.length < 2 ^ 64 := by
  obtain ⟨k, hk, hcap⟩ := h.capacity
  have hlt : 2 ^ k < 2 ^ 64 := Nat.pow_lt_pow_right Nat.one_lt_two hk
  have hle := h.le_capacity
  omega

theorem size_eq (h : r.Holds items) : r.size = items.length := by
  have hlt := h.length_lt
  rw [size, h.tail, UInt64.add_comm, UInt64.add_sub_cancel, UInt64.toNat_ofNat']
  exact Nat.mod_eq_of_lt hlt

/-- The cursors meet only when nothing is held. -/
theorem head_eq_tail_iff (h : r.Holds items) : r.head = r.tail ↔ items = [] := by
  have hsize := h.size_eq
  rw [size] at hsize
  constructor
  · intro heq
    rw [heq, UInt64.sub_self] at hsize
    exact List.length_eq_zero_iff.mp hsize.symm
  · rintro rfl
    rw [h.tail]
    exact (UInt64.add_zero _).symm

theorem toList_eq (h : r.Holds items) : r.toList = items := by
  have hslots : ∀ i ∈ List.range items.length, r.slotAt (r.head + UInt64.ofNat i) = items[i]? :=
    fun i hi => h.slots i (List.mem_range.mp hi)
  change (List.range r.size).filterMap (fun i => r.slotAt (r.head + UInt64.ofNat i)) = items
  rw [h.size_eq, List.filterMap_congr hslots]
  clear h hslots
  induction items with
  | nil => rfl
  | cons a items ih =>
    rw [List.length_cons, List.range_succ_eq_map, List.filterMap_cons]
    simpa [List.filterMap_map, Function.comp_def] using ih

end Holds

/-- A new ring holds nothing, wherever its cursors start. -/
theorem holds_emptyAt {wanted : Nat} (h : wanted ≤ 2 ^ 63) (cursor : UInt64) :
    (emptyAt wanted cursor : Handoff α).Holds [] where
  capacity := exists_ceilPow2_eq h
  le_capacity := Nat.zero_le _
  tail := (UInt64.add_zero cursor).symm
  slots := by simp

namespace Holds

/-! ## The producer's end -/

/-- While there is a place left, an item goes to the end of the list. -/
theorem offer_of_lt (h : r.Holds items) (hlt : items.length < r.capacity) (a : α) :
    ∃ s, r.offer a = .ok s ∧ s.capacity = r.capacity ∧ s.Holds (items ++ [a]) := by
  have hroom : ¬ r.capacity ≤ r.size := by
    rw [h.size_eq]
    omega
  rw [offer, if_neg hroom]
  refine ⟨_, rfl, rfl, h.capacity, ?_, ?_, ?_⟩
  · rw [List.length_append]
    exact hlt
  · dsimp only
    rw [h.tail, List.length_append, List.length_singleton, UInt64.ofNat_add, UInt64.add_assoc]
    rfl
  · intro i hi
    change (r.slots.set (r.position r.tail).val (some a) (r.position r.tail).isLt)[
      (r.position (r.head + UInt64.ofNat i)).val] = _
    rw [List.length_append, List.length_singleton] at hi
    by_cases hil : i < items.length
    -- The places of the items that were held are not touched.
    · have hne : (r.position r.tail).val ≠ (r.position (r.head + UInt64.ofNat i)).val := by
        rw [h.tail]
        exact position_add_ne h.capacity r.head hlt (by omega) (by omega)
      rw [Vector.getElem_set_ne _ _ hne, List.getElem?_append_left hil]
      exact h.slots i hil
    · obtain rfl : i = items.length := by omega
      simp only [← h.tail, Vector.getElem_set_self, List.getElem?_concat_length]

/-- When all places are taken, the item is handed back. -/
theorem offer_of_le (h : r.Holds items) (hle : r.capacity ≤ items.length) (a : α) :
    r.offer a = .error a := by
  rw [offer, if_pos (by rwa [h.size_eq])]

/-! ## The consumer's end -/

theorem poll_nil (h : r.Holds []) : r.poll = none := by
  rw [poll, if_pos (h.head_eq_tail_iff.mpr rfl)]

/-- The oldest item comes first, and the others stand as they stood. -/
theorem poll_cons {a : α} (h : r.Holds (a :: items)) :
    ∃ s, r.poll = some (a, s) ∧ s.capacity = r.capacity ∧ s.Holds items := by
  have hfirst : r.slotAt r.head = some a := by
    have := h.slots 0 (Nat.succ_pos _)
    rwa [show r.head + UInt64.ofNat 0 = r.head from UInt64.add_zero r.head] at this
  have hnext (i : Nat) : r.head + 1 + UInt64.ofNat i = r.head + UInt64.ofNat (i + 1) := by
    rw [UInt64.add_assoc, UInt64.ofNat_add, UInt64.add_comm 1]
    rfl
  refine ⟨{ r with head := r.head + 1 }, ?_, rfl, h.capacity, ?_, ?_, ?_⟩
  · rw [slotAt] at hfirst
    rw [poll, if_neg (by simp [h.head_eq_tail_iff]), hfirst]
  · exact (Nat.le_succ _).trans h.le_capacity
  · dsimp only
    rw [h.tail, hnext, List.length_cons]
  · intro i hi
    change r.slotAt (r.head + 1 + UInt64.ofNat i) = items[i]?
    rw [hnext, h.slots (i + 1) (Nat.succ_lt_succ hi), List.getElem?_cons_succ]

end Holds

end Handoff

end Admission
