/-!
# Heaps

A heap hands out a greatest one of its items first. A comparison is all that it knows of them, and
where it keeps an item cannot be told from outside. With the comparison reversed a least item comes
first.

## Main definitions

* `MaxHeap α`: items of which a greatest one comes first
* `MaxHeap.push`, `MaxHeap.peek?`, `MaxHeap.pop?`: adds an item, looks at the first one, and takes
  it out
* `Reversed α`: items that are compared the other way round

## Main results

* `MaxHeap.perm_of_pop?`, `MaxHeap.isLE_of_pop?`: what is taken out was there, and nothing is
  greater
-/

namespace Admission

/-! ## Comparison the other way round -/

/-- An item that is compared the other way round. -/
structure Reversed (α : Type) where
  val : α
deriving DecidableEq, Repr

instance {α : Type} [Ord α] : Ord (Reversed α) where
  compare a b := compare b.val a.val

instance {α : Type} [Ord α] [Std.TransOrd α] : Std.TransOrd (Reversed α) where
  eq_swap := Std.OrientedOrd.eq_swap (α := α)
  isLE_trans hab hbc := Std.TransOrd.isLE_trans (α := α) hbc hab

/-! ## Heaps -/

/-- Items of which a greatest one comes first. -/
structure MaxHeap (α : Type) where
  /-- The items, in an order that does not matter. -/
  items : List α
deriving DecidableEq, Repr

namespace MaxHeap

variable {α : Type}

/-- No items. -/
def empty : MaxHeap α := ⟨[]⟩

/-- Adds an item. -/
def push (h : MaxHeap α) (a : α) : MaxHeap α := ⟨a :: h.items⟩

/-- The number of items. -/
def size (h : MaxHeap α) : Nat := h.items.length

/-- Whether there is no item. -/
def isEmpty (h : MaxHeap α) : Bool := h.items.isEmpty

section Order

variable [Ord α]

/-- A greatest one of some items, and the others. -/
def select (a : α) : List α → α × List α
  | [] => (a, [])
  | b :: rest =>
    if (compare a b).isLT then
      let (top, others) := select b rest
      (top, a :: others)
    else
      let (top, others) := select a rest
      (top, b :: others)

/-- A greatest item. -/
def peek? (h : MaxHeap α) : Option α :=
  match h.items with
  | [] => none
  | a :: rest => some (select a rest).1

/-- Takes out a greatest item. -/
def pop? (h : MaxHeap α) : Option (α × MaxHeap α) :=
  match h.items with
  | [] => none
  | a :: rest =>
    let (top, others) := select a rest
    some (top, ⟨others⟩)

/-! ## What is taken out -/

variable {h rest : MaxHeap α} {a : α}

theorem select_perm (a : α) (l : List α) : ((select a l).1 :: (select a l).2).Perm (a :: l) := by
  induction l generalizing a with
  | nil => exact .refl _
  | cons b l ih =>
    rw [select]
    split
    · exact (List.Perm.swap a _ _).trans ((ih b).cons a)
    · exact ((List.Perm.swap b _ _).trans ((ih a).cons b)).trans (.swap a b l)

theorem isLE_select [Std.TransOrd α] (a : α) (l : List α) :
    ∀ b ∈ a :: l, (compare b (select a l).1).isLE := by
  induction l generalizing a with
  | nil =>
    intro b hb
    obtain rfl := List.mem_singleton.mp hb
    exact Std.ReflOrd.isLE_rfl
  | cons b l ih =>
    rw [select]
    split
    · rename_i hlt
      have hb := ih b
      refine List.forall_mem_cons.mpr ⟨?_, hb⟩
      exact Std.TransOrd.isLE_trans (Ordering.isLE_of_eq_lt (Ordering.isLT_iff_eq_lt.mp hlt))
        (hb b List.mem_cons_self)
    · rename_i hge
      obtain ⟨ha, hl⟩ := List.forall_mem_cons.mp (ih a)
      refine List.forall_mem_cons.mpr ⟨ha, List.forall_mem_cons.mpr ⟨?_, hl⟩⟩
      rw [Ordering.isLT_iff_eq_lt] at hge
      have hba : (compare b a).isLE :=
        Std.OrientedCmp.isGE_iff_isLE.mp (Ordering.isGE_iff_ne_lt.mpr hge)
      exact Std.TransOrd.isLE_trans hba ha

theorem peek?_eq (h : MaxHeap α) : h.peek? = h.pop?.map (·.1) := by
  unfold peek? pop?
  split <;> rfl

theorem pop?_eq_none_iff : h.pop? = none ↔ h.items = [] := by
  unfold pop?
  cases h.items <;> simp

/-- What is taken out was in the heap, and everything else is left there. -/
theorem perm_of_pop? (hpop : h.pop? = some (a, rest)) : (a :: rest.items).Perm h.items := by
  unfold pop? at hpop
  split at hpop
  · cases hpop
  · rename_i b l hitems
    cases hpop
    rw [hitems]
    exact select_perm b l

/-- Nothing in the heap is greater than what is taken out. -/
theorem isLE_of_pop? [Std.TransOrd α] (hpop : h.pop? = some (a, rest)) :
    ∀ b ∈ h.items, (compare b a).isLE := by
  unfold pop? at hpop
  split at hpop
  · cases hpop
  · rename_i b l hitems
    cases hpop
    rw [hitems]
    exact isLE_select b l

theorem size_of_pop? (hpop : h.pop? = some (a, rest)) : rest.size < h.size := by
  have hlength := (perm_of_pop? hpop).length_eq
  rw [List.length_cons] at hlength
  unfold size
  omega

end Order

end MaxHeap

end Admission
