import Admission.Proofs.Deadline.Places

/-!
# Who has the handle of the worker

A call that stops a timeout service takes the handle of the worker behind a lock. The first call
that comes gets it. On another thread it keeps the lock until the worker has ended, so all that come
later wait too. On the worker's own thread it gives the lock back at once, and those that come later
find no handle to wait for.

## Main definitions

* `Shutdown.Guarded`: who has the handle, and what that means for calls that have got past the lock

## Main results

* `Guarded.step`, `Guarded.steps`: this is kept by each step, and by any steps
-/

namespace Admission

namespace TimeoutService

variable {τ : Type}

namespace Shutdown

/-- Who has the handle. A call on another thread keeps the lock until the worker has ended, so no
call gets past it before. A call on the worker's thread takes the handle away from all others. -/
structure Guarded (c : Shutdown τ) : Prop where
  waits : c.taker = some .other → c.stage = .ended ∨ ∃ p ∈ c.stops, p.stage = .joining
  passed : ∀ p ∈ c.stops, p.stage = .leaving ∨ p.stage = .returned →
    c.stage = .ended ∨ c.taker = some .worker
  inside : c.taker = some .worker → ∃ p ∈ c.stops, p.thread = .worker

section Handle

variable {c d : Shutdown τ} {before after : List StopCall} {thread : Thread}

theorem mem_or_eq_of_mem_replaced {α : Type} {before after : List α} {a b p : α}
    (h : p ∈ before ++ a :: after) : p ∈ before ++ b :: after ∨ p = a := by
  rcases List.mem_append.mp h with h | h
  · exact Or.inl (List.mem_append_left _ h)
  · rcases List.mem_cons.mp h with rfl | h
    · exact Or.inr rfl
    · exact Or.inl (List.mem_append_right _ (List.mem_cons_of_mem _ h))

/-- The worker leaves the calls to stop where they are. -/
theorem WorkStep.of_ended (h : WorkStep c d) :
    d.stops = c.stops ∧ d.taker = c.taker ∧ (c.stage = .ended → d.stage = .ended) := by
  cases h with
  | wake now hstage hr h => exact ⟨rfl, rfl, id⟩
  | fire hstage hr h => exact ⟨rfl, rfl, id⟩
  | finish ending hr h => exact ⟨rfl, rfl, id⟩
  | receive hstage hr h hs => exact ⟨rfl, rfl, id⟩
  | leave hstage hr hw h => exact ⟨rfl, rfl, fun hended => nomatch hstage.symm.trans hended⟩
  | uncount hstage => exact ⟨rfl, rfl, fun hended => nomatch hstage.symm.trans hended⟩
  | close hstage => exact ⟨rfl, rfl, fun hended => nomatch hstage.symm.trans hended⟩
  | terminate hstage => exact ⟨rfl, rfl, fun _ => rfl⟩

/-- A call goes on without the handle. -/
theorem Guarded.replace (hg : c.Guarded) {old new : StopStage}
    (h : c.stops = before ++ ⟨thread, old⟩ :: after)
    (hstops : d.stops = before ++ ⟨thread, new⟩ :: after)
    (htaker : d.taker = c.taker) (hstage : d.stage = c.stage)
    (hold : old = .joining → c.stage = .ended)
    (hnew : new = .leaving ∨ new = .returned → c.stage = .ended ∨ c.taker = some .worker) :
    d.Guarded where
  waits := by
    intro hother
    rw [hstage, hstops]
    refine (hg.waits (htaker.symm.trans hother)).elim Or.inl fun ⟨p, hp, hjoining⟩ => ?_
    rcases mem_or_eq_of_mem_replaced (h ▸ hp) with hp | rfl
    · exact Or.inr ⟨p, hp, hjoining⟩
    · exact Or.inl (hold hjoining)
  passed := by
    rw [hstage, hstops, htaker]
    intro p hp hpassed
    rcases mem_or_eq_of_mem_replaced hp with hp | rfl
    · exact hg.passed p (h ▸ hp) hpassed
    · exact hnew hpassed
  inside := by
    intro hworker
    rw [hstops]
    obtain ⟨p, hp, hthread⟩ := hg.inside (htaker.symm.trans hworker)
    rcases mem_or_eq_of_mem_replaced (h ▸ hp) with hp | rfl
    · exact ⟨p, hp, hthread⟩
    · exact ⟨⟨thread, new⟩, List.mem_append_right _ List.mem_cons_self, hthread⟩

/-- The handle is taken once. -/
theorem Guarded.take (hg : c.Guarded) (h : c.stops = before ++ ⟨thread, .posted⟩ :: after)
    (hl : ¬ c.Locked) :
    Guarded { c with
      stops := before ++
        ⟨thread, if c.taker = none ∧ thread = .other then .joining else .leaving⟩ :: after
      taker := c.taker.or (some thread) } := by
  cases ht : c.taker with
  | none =>
    -- Whoever has got past the lock has seen the worker end.
    have hpassed : ∀ p ∈ c.stops, p.stage = .leaving ∨ p.stage = .returned → c.stage = .ended := by
      intro p hp hstage
      have htaken := hg.passed p hp hstage
      rw [ht] at htaken
      exact htaken.resolve_right fun heq => nomatch heq
    cases thread with
    | other =>
      exact {
        waits := fun _ => Or.inr ⟨_, List.mem_append_right _ List.mem_cons_self, rfl⟩
        passed := by
          intro p hp hstage
          rcases mem_or_eq_of_mem_replaced hp with hp | rfl
          · exact Or.inl (hpassed p (h ▸ hp) hstage)
          · exact hstage.elim (fun heq => nomatch heq) fun heq => nomatch heq
        inside := fun heq => nomatch heq }
    | worker =>
      exact {
        waits := fun heq => nomatch heq
        passed := fun _ _ _ => Or.inr rfl
        inside := fun _ => ⟨_, List.mem_append_right _ List.mem_cons_self, rfl⟩ }
  | some taker =>
    have hended : taker = .other → c.stage = .ended := by
      rintro rfl
      exact (hg.waits ht).resolve_right fun ⟨p, hp, hjoining⟩ => hl ⟨p, hp, Or.inl hjoining⟩
    have hpassed : c.stage = .ended ∨ c.taker = some .worker := by
      cases taker with
      | worker => exact Or.inr ht
      | other => exact Or.inl (hended rfl)
    exact hg.replace h rfl ht.symm rfl (fun heq => nomatch heq) fun _ => hpassed

theorem Guarded.step (hg : c.Guarded) (ho : c.Accounted) (h : Step c d) : d.Guarded := by
  cases h with
  | call h => cases h with
    | enter task timeout now h => exact { hg with }
    | count before h => exact { hg with }
    | send before h hs => exact { hg with }
    | fail before h hs => exact { hg with }
    | retract before h => exact { hg with }
  | work h =>
    obtain ⟨hstops, htaker, hended⟩ := h.of_ended
    exact {
      waits := by
        rw [hstops, htaker]
        exact fun hother => (hg.waits hother).imp_left hended
      passed := by
        rw [hstops, htaker]
        exact fun p hp hstage => (hg.passed p hp hstage).imp_left hended
      inside := by
        rw [hstops, htaker]
        exact hg.inside }
  | stop h => cases h with
    | refuse thread h =>
      exact {
        waits := fun hother => (hg.waits hother).imp_right fun ⟨p, hp, hjoining⟩ =>
          ⟨p, List.mem_cons_of_mem _ hp, hjoining⟩
        passed := by
          intro p hp hstage
          rcases List.mem_cons.mp hp with rfl | hp
          · exact hstage.elim (fun heq => nomatch heq) fun heq => nomatch heq
          · exact hg.passed p hp hstage
        inside := fun hworker => (hg.inside hworker).imp fun _ =>
          And.imp_left (List.mem_cons_of_mem _) }
    | post before h =>
      exact hg.replace h rfl rfl rfl (fun heq => nomatch heq)
        fun hposted => hposted.elim (fun heq => nomatch heq) fun heq => nomatch heq
    | take before h hl => exact hg.take h hl
    | join before h he =>
      have hended := ho.ended_of_isExited he
      exact hg.replace h rfl rfl rfl (fun _ => hended) fun _ => Or.inl hended
    | release before h =>
      have hpassed := hg.passed _ (h ▸ List.mem_append_right _ List.mem_cons_self) (Or.inl rfl)
      exact hg.replace h rfl rfl rfl (fun heq => nomatch heq) fun _ => hpassed

theorem Guarded.steps (hg : c.Guarded) (ho : c.Accounted) (h : Relation.ReflTransGen Step c d) :
    d.Guarded := by
  induction h with
  | refl => exact hg
  | tail hsteps hstep ih => exact ih.step (ho.steps hsteps) hstep

end Handle

/-- At first nobody has called to stop. -/
theorem guarded_start (s : TimeoutService (Call τ)) : Guarded { traffic := { service := s } } where
  waits := fun heq => nomatch heq
  passed := fun _ hp => nomatch hp
  inside := fun heq => nomatch heq

end Shutdown

end TimeoutService

end Admission
