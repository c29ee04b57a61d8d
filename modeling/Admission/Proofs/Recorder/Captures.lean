import Admission.Proofs.Recorder.Traffic

/-!
# Captures from a recorder

Every instance holds the changes of the writers that have written to it since it was last cleared,
in their order. A capture returns what the retired instance holds, and nobody writes to it until it
is cleared. So the change of a writer is held by one instance until one capture returns it, even if
the writer took its ticket before the start counter was swapped and found the other instance, or the
other way round.

## Main definitions

* `content`: what an instance holds after changes
* `Traffic.written`: whether a writer has written
* `Holds`: what the captures have returned, and what the instances still hold

## Main results

* `Holds.step`: each step keeps track of every change
* `captures_exact`: what a reader waits for, what it is safe from, and what becomes of every change
-/

namespace Admission.Recorder

variable {α : Type}

/-- What an instance holds after the changes of some writers. -/
def content (fresh : α) (write : Nat → α → α) (writers : List Nat) : α :=
  writers.foldl (fun a i => write i a) fresh

theorem content_snoc (fresh : α) (write : Nat → α → α) (writers : List Nat) (i : Nat) :
    content fresh write (writers ++ [i]) = write i (content fresh write writers) := by
  rw [content, List.foldl_append]
  rfl

/-- Whether a writer has written. -/
def Writer.hasWritten (w : Writer) : Bool :=
  match w.progress with
  | .entered => false
  | .found _ => false
  | .wrote _ => true
  | .left => true

/-- Whether the writer at a place has written. -/
def Traffic.written (t : Traffic α) (i : Nat) : Bool := t.writers[i]?.any Writer.hasWritten

/-- The captures have returned the changes of some writers each, and both instances hold those of
others. An instance that has been read holds none that were not returned. The change of every writer
that has written is in one place. -/
structure Holds (fresh : α) (write : Nat → α → α) (t : Traffic α) (returned : List (List Nat))
    (held : Half → List Nat) : Prop where
  captured_eq : t.captured = returned.map (content fresh write)
  get_eq {h : Half} (hr : t.reader ≠ .clearing h) : t.recorder.get h = content fresh write (held h)
  held_eq_nil {h : Half} (hr : t.reader = .clearing h) : held h = []
  count_eq (i : Nat) : returned.flatten.count i + (held .first).count i + (held .second).count i =
    if t.written i then 1 else 0

section Steps

variable {fresh : α} {write : Nat → α → α} {t u : Traffic α} {w : Writer} {i : Nat} {p : Progress}
  {r : Recorder α} {returned : List (List Nat)} {held : Half → List Nat}

theorem written_join (t : Traffic α) (i : Nat) : t.join.written i = t.written i := by
  unfold Traffic.written Traffic.join
  dsimp only
  rcases Nat.lt_trichotomy i t.writers.length with hlt | rfl | hlt
  · rw [List.getElem?_append_left hlt]
  · rw [List.getElem?_append_right (Nat.le_refl _), Nat.sub_self,
      List.getElem?_eq_none (Nat.le_refl _)]
    rfl
  · rw [List.getElem?_eq_none (Nat.le_of_lt hlt), List.getElem?_eq_none]
    rw [List.length_append]
    exact hlt

theorem written_advance (h : t.writers[i]? = some w) (j : Nat) :
    (t.advance i w p r).written j =
      if i = j then Writer.hasWritten { w with progress := p } else t.written j := by
  have hi : i < t.writers.length := (List.getElem?_eq_some_iff.mp h).1
  unfold Traffic.written Traffic.advance
  dsimp only
  rw [List.getElem?_set]
  by_cases hij : i = j
  · subst hij
    rw [if_pos rfl, if_pos hi, if_pos rfl]
    rfl
  · rw [if_neg hij, if_neg hij]

/-- The progress of a writer that is not its write. -/
theorem written_advance_of_eq (h : t.writers[i]? = some w)
    (hp : Writer.hasWritten { w with progress := p } = w.hasWritten) (j : Nat) :
    (t.advance i w p r).written j = t.written j := by
  rw [written_advance h]
  split_ifs with hij
  · subst hij
    rw [hp, Traffic.written, h]
    rfl
  · rfl

/-- A step that neither writes nor reads nor clears keeps everything where it is. -/
theorem Holds.of_eq (hh : Holds fresh write t returned held) (hcaptured : u.captured = t.captured)
    (hget : ∀ h, u.recorder.get h = t.recorder.get h)
    (hreader : ∀ h, u.reader = .clearing h ↔ t.reader = .clearing h)
    (hwritten : ∀ i, u.written i = t.written i) : Holds fresh write u returned held where
  captured_eq := hcaptured.trans hh.captured_eq
  get_eq hr := (hget _).trans (hh.get_eq fun h => hr ((hreader _).mpr h))
  held_eq_nil hr := hh.held_eq_nil ((hreader _).mp hr)
  count_eq i := by
    rw [hwritten]
    exact hh.count_eq i

/-- A change is held by the instance to which it is written. -/
theorem Holds.wrote {half : Half} (hh : Holds fresh write t returned held)
    (h : t.writers[i]? = some w) (hp : w.progress = .found half) (hr : t.reader ≠ .clearing half) :
    Holds fresh write
      (t.advance i w (.wrote half) (t.recorder.write half fun a => (write i a, ())).1) returned
      (Function.update held half (held half ++ [i])) where
  captured_eq := hh.captured_eq
  get_eq {k} hk := by
    show ((t.recorder.write half fun a => (write i a, ())).1).get k = _
    by_cases hkh : k = half
    · subst hkh
      rw [Function.update_self, content_snoc, ← hh.get_eq hr]
      exact get_modify_self
    · rw [Function.update_of_ne hkh, ← hh.get_eq hk]
      exact get_modify_of_ne hkh
  held_eq_nil {k} hk := by
    have hkh : k ≠ half := by
      rintro rfl
      exact hr hk
    rw [Function.update_of_ne hkh]
    exact hh.held_eq_nil hk
  count_eq j := by
    have hcount := hh.count_eq j
    have hsnoc : (held half ++ [i]).count j = (held half).count j + if i = j then 1 else 0 := by
      rw [List.count_append, List.count_singleton]
      simp only [beq_iff_eq]
    have hsum : (Function.update held half (held half ++ [i]) .first).count j +
        (Function.update held half (held half ++ [i]) .second).count j =
          (held .first).count j + (held .second).count j + if i = j then 1 else 0 := by
      cases half with
      | first =>
        rw [Function.update_self, Function.update_of_ne (by decide), hsnoc]
        omega
      | second =>
        rw [Function.update_self, Function.update_of_ne (by decide), hsnoc]
        omega
    rw [written_advance h]
    by_cases hij : i = j
    · subst hij
      have hnot : t.written i = false := by
        rw [Traffic.written, h, Option.any_some, Writer.hasWritten, hp]
      rw [hnot, if_neg Bool.false_ne_true] at hcount
      rw [if_pos rfl] at hsum ⊢
      show _ = 1
      omega
    · rw [if_neg hij] at hsum ⊢
      omega

/-- What is read has been returned, and is not held any more. -/
theorem Holds.read {retired : Half} (hh : Holds fresh write t returned held)
    (hr : t.reader = .ready retired) :
    Holds fresh write
      { t with reader := .clearing retired, captured := t.captured ++ [t.recorder.get retired] }
      (returned ++ [held retired]) (Function.update held retired []) where
  captured_eq := by
    have hget : t.recorder.get retired = content fresh write (held retired) :=
      hh.get_eq (by rw [hr]; exact Reader.noConfusion)
    dsimp only
    rw [List.map_append, ← hh.captured_eq, hget]
    rfl
  get_eq {k} hk := by
    have hkr : k ≠ retired := fun heq => hk (congrArg Reader.clearing heq.symm)
    rw [Function.update_of_ne hkr]
    exact hh.get_eq (by rw [hr]; exact Reader.noConfusion)
  held_eq_nil {k} hk := by
    cases hk
    exact Function.update_self ..
  count_eq j := by
    have hcount := hh.count_eq j
    show _ = if t.written j then 1 else 0
    rw [← hcount, List.flatten_append, List.count_append, List.flatten_singleton]
    cases retired with
    | first =>
      rw [Function.update_self, Function.update_of_ne (by decide), List.count_nil]
      omega
    | second =>
      rw [Function.update_self, Function.update_of_ne (by decide), List.count_nil]
      omega

/-- What is cleared holds nothing. -/
theorem Holds.clear {retired : Half} (hh : Holds fresh write t returned held)
    (hr : t.reader = .clearing retired) :
    Holds fresh write
      { t with recorder := t.recorder.modify retired fun _ => fresh, reader := .resting }
      returned held where
  captured_eq := hh.captured_eq
  get_eq {k} _ := by
    dsimp only
    by_cases hkr : k = retired
    · subst hkr
      rw [get_modify_self, hh.held_eq_nil hr]
      rfl
    · rw [get_modify_of_ne hkr]
      exact hh.get_eq fun h => hkr (Reader.clearing.inj (h.symm.trans hr))
  held_eq_nil hk := nomatch hk
  count_eq := hh.count_eq

/-- Every step keeps track of every change. -/
theorem Holds.step (hh : Holds fresh write t returned held) (ho : t.Orderly)
    (hstep : Step fresh write t u) : ∃ returned held, Holds fresh write u returned held := by
  cases hstep with
  | enter =>
    exact ⟨_, _, hh.of_eq rfl (fun h => by cases h <;> rfl) (fun _ => Iff.rfl) (written_join t)⟩
  | find h hp =>
    refine ⟨_, _, hh.of_eq rfl (fun _ => rfl) (fun _ => Iff.rfl) (written_advance_of_eq h ?_)⟩
    rw [Writer.hasWritten, Writer.hasWritten, hp]
  | @write i w half h hp =>
    -- The instance is not the one that is being cleared.
    have hr : t.reader ≠ .clearing half := fun hr =>
      ho.not_found_retired (Or.inr hr) w (List.mem_of_getElem? h) hp
    exact ⟨_, _, hh.wrote h hp hr⟩
  | exit h hp =>
    refine ⟨_, _, hh.of_eq rfl (fun h => by cases h <;> rfl) (fun _ => Iff.rfl)
      (written_advance_of_eq h ?_)⟩
    rw [Writer.hasWritten, Writer.hasWritten, hp]
  | switch hr | prepare hr | swap hr | drained hr =>
    refine ⟨_, _, hh.of_eq rfl (fun h => by cases h <;> rfl) (fun h => ?_) fun _ => rfl⟩
    rw [hr]
    exact ⟨Reader.noConfusion, Reader.noConfusion⟩
  | read hr => exact ⟨_, _, hh.read hr⟩
  | clear hr => exact ⟨_, _, hh.clear hr⟩

/-- Whatever the order of the steps, they keep everything in order and track of every change. -/
theorem Reachable.orderly (h : Reachable fresh write t) (hfew : ∀ k, t.entered k < 2 ^ 63) :
    t.Orderly ∧ ∃ returned held, Holds fresh write t returned held := by
  induction h with
  | start =>
    refine ⟨Traffic.orderly_start fresh, [], fun _ => [], rfl, fun {h} _ => ?_,
      fun _ => rfl, fun _ => rfl⟩
    cases h <;> rfl
  | next _ hstep ih =>
    have hbefore := fun k => Nat.lt_of_le_of_lt (Traffic.entered_le_of_step hstep) (hfew k)
    obtain ⟨ho, returned, held, hh⟩ := ih hbefore
    exact ⟨ho.step hstep hbefore, hh.step ho hstep⟩

end Steps

/-- **Captures lose nothing and repeat nothing.** The steps of any number of writers fall in any
order between those of one reader after another, and fewer than `2 ^ 63` start tickets are taken
between two swaps.

* The reader stops waiting if and only if every writer has left that took its ticket between the
  last two swaps.
* From then on until the retired instance is cleared, no writer is about to write to it.
* Every capture has returned what some writers have written, in their order, and each instance holds
  what others have. The change of each writer that has written is returned by one capture or held by
  one instance, and no change is there twice. -/
theorem captures_exact {fresh : α} {write : Nat → α → α} {t : Traffic α}
    (h : Reachable fresh write t)
    (hfew : ∀ k, t.entered k < 2 ^ 63) :
    (∀ retired f, t.reader = .waiting retired f →
        (t.recorder.isDrained f = true ↔
          ∀ w ∈ t.writers, w.phase + 1 = t.flips → w.progress = .left)) ∧
      (∀ retired, t.reader = .ready retired ∨ t.reader = .clearing retired →
        ∀ w ∈ t.writers, w.progress ≠ .found retired) ∧
      ∃ returned held, Holds fresh write t returned held := by
  obtain ⟨ho, hholds⟩ := h.orderly hfew
  refine ⟨fun retired f hr => ho.isDrained_iff hfew hr,
    fun retired hr => ho.not_found_retired hr, hholds⟩

/-- The second writer has an old ticket and finds the new instance; the third has a new ticket. The
capture waits for the first two and returns the change of the first. -/
theorem captures_exact_late :
    let write (i : Nat) (l : List Nat) := l ++ [i]
    ∃ t : Traffic (List Nat), Reachable [] write t ∧ t.reader = .clearing .first ∧
      t.captured = [[0]] ∧ t.recorder.second = [1] ∧
      (∀ w ∈ t.writers, w.progress ≠ .found .first) ∧
        ∃ returned held, Holds [] write t returned held := by
  intro write
  have h0 : Reachable [] write ⟨⟨[], [], .first, ⟨0, 0, Int64.minValue⟩⟩, [], .resting, 0, []⟩ :=
    .start
  have h1 : Reachable [] write
      ⟨⟨[], [], .first, ⟨1, 0, Int64.minValue⟩⟩, [⟨0, 0, .entered⟩], .resting, 0, []⟩ :=
    h0.next (.enter _)
  have h2 : Reachable [] write
      ⟨⟨[], [], .first, ⟨1, 0, Int64.minValue⟩⟩, [⟨0, 0, .found .first⟩], .resting, 0, []⟩ :=
    h1.next (.find (i := 0) (w := ⟨0, 0, .entered⟩) rfl rfl)
  have h3 : Reachable [] write
      ⟨⟨[], [], .second, ⟨1, 0, Int64.minValue⟩⟩, [⟨0, 0, .found .first⟩],
        .switched .first, 0, []⟩ :=
    h2.next (.switch rfl)
  have h4 : Reachable [] write
      ⟨⟨[], [], .second, ⟨2, 0, Int64.minValue⟩⟩, [⟨0, 0, .found .first⟩, ⟨1, 0, .entered⟩],
        .switched .first, 0, []⟩ :=
    h3.next (.enter _)
  have h5 : Reachable [] write
      ⟨⟨[], [], .second, ⟨2, 0, Int64.minValue⟩⟩, [⟨0, 0, .found .first⟩, ⟨1, 0, .found .second⟩],
        .switched .first, 0, []⟩ :=
    h4.next (.find (i := 1) (w := ⟨1, 0, .entered⟩) rfl rfl)
  have h6 : Reachable [] write
      ⟨⟨[], [], .second, ⟨2, 0, Int64.minValue⟩⟩, [⟨0, 0, .found .first⟩, ⟨1, 0, .found .second⟩],
        .prepared .first false, 0, []⟩ :=
    h5.next (.prepare rfl)
  have h7 : Reachable [] write
      ⟨⟨[], [], .second, ⟨Int64.minValue, 0, Int64.minValue⟩⟩,
        [⟨0, 0, .found .first⟩, ⟨1, 0, .found .second⟩], .waiting .first ⟨true, 2⟩, 1, []⟩ :=
    h6.next (@Step.swap _ [] write _ .first false rfl)
  have h8 : Reachable [] write
      ⟨⟨[], [], .second, ⟨Int64.minValue + 1, 0, Int64.minValue⟩⟩,
        [⟨0, 0, .found .first⟩, ⟨1, 0, .found .second⟩, ⟨Int64.minValue, 1, .entered⟩],
        .waiting .first ⟨true, 2⟩, 1, []⟩ :=
    h7.next (.enter _)
  have h9 : Reachable [] write
      ⟨⟨[], [1], .second, ⟨Int64.minValue + 1, 0, Int64.minValue⟩⟩,
        [⟨0, 0, .found .first⟩, ⟨1, 0, .wrote .second⟩, ⟨Int64.minValue, 1, .entered⟩],
        .waiting .first ⟨true, 2⟩, 1, []⟩ :=
    h8.next (.write (i := 1) (w := ⟨1, 0, .found .second⟩) rfl rfl)
  have h10 : Reachable [] write
      ⟨⟨[], [1], .second, ⟨Int64.minValue + 1, 1, Int64.minValue⟩⟩,
        [⟨0, 0, .found .first⟩, ⟨1, 0, .left⟩, ⟨Int64.minValue, 1, .entered⟩],
        .waiting .first ⟨true, 2⟩, 1, []⟩ :=
    h9.next (.exit (i := 1) (w := ⟨1, 0, .wrote .second⟩) rfl rfl)
  have h11 : Reachable [] write
      ⟨⟨[0], [1], .second, ⟨Int64.minValue + 1, 1, Int64.minValue⟩⟩,
        [⟨0, 0, .wrote .first⟩, ⟨1, 0, .left⟩, ⟨Int64.minValue, 1, .entered⟩],
        .waiting .first ⟨true, 2⟩, 1, []⟩ :=
    h10.next (.write (i := 0) (w := ⟨0, 0, .found .first⟩) rfl rfl)
  have h12 : Reachable [] write
      ⟨⟨[0], [1], .second, ⟨Int64.minValue + 1, 2, Int64.minValue⟩⟩,
        [⟨0, 0, .left⟩, ⟨1, 0, .left⟩, ⟨Int64.minValue, 1, .entered⟩],
        .waiting .first ⟨true, 2⟩, 1, []⟩ :=
    h11.next (.exit (i := 0) (w := ⟨0, 0, .wrote .first⟩) rfl rfl)
  have h13 : Reachable [] write
      ⟨⟨[0], [1], .second, ⟨Int64.minValue + 1, 2, Int64.minValue⟩⟩,
        [⟨0, 0, .left⟩, ⟨1, 0, .left⟩, ⟨Int64.minValue, 1, .entered⟩], .ready .first, 1, []⟩ :=
    h12.next (.drained rfl (by decide))
  have h14 : Reachable [] write
      ⟨⟨[0], [1], .second, ⟨Int64.minValue + 1, 2, Int64.minValue⟩⟩,
        [⟨0, 0, .left⟩, ⟨1, 0, .left⟩, ⟨Int64.minValue, 1, .entered⟩],
          .clearing .first, 1, [[0]]⟩ :=
    h13.next (.read rfl)
  obtain ⟨-, hsafe, hholds⟩ := captures_exact h14 fun k =>
    Nat.lt_of_le_of_lt List.countP_le_length (by decide)
  exact ⟨_, h14, rfl, rfl, rfl, hsafe .first (Or.inr rfl), hholds⟩

end Admission.Recorder
