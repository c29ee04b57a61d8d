import Admission.Gate.Basic

/-!
# What chains keep

A chain asks its components one after another, and returns permits to them one after another. So
what every component keeps is kept by the chain, wherever a request is refused. A refused request
falls into three parts: the components before the one that refuses grant it, that one refuses it,
and those before it get their permits back.

## Main definitions

* `Chain.Kept`: no component breaks a property of the components when it is asked or gets unused
  permits back
* `Chain.Refused`: the three parts of a refused request

## Main results

* `Chain.acquire_keeps`, `Chain.releaseUnused_keeps`, `Chain.release_keeps`: what is kept by the
  components is kept by chains
* `Chain.exists_refused_of_acquire`: every refused request falls into them
-/

namespace Admission.Chain

variable {κ γ O R : Type} [Outcome O] [Backpressure κ γ O R]

/-- No component breaks a property when it is asked for permits or gets unused ones back. -/
structure Kept (κ O R : Type) [Outcome O] [Backpressure κ γ O R] (P : γ → Prop) : Prop where
  acquire (c : κ) (units now : UInt64) {s : γ} (h : P s) :
    P (Backpressure.acquire (O := O) (R := R) c units now s).2.1
  /-- The return of unused permits keeps the property. -/
  releaseUnused (c : κ) (units now : UInt64) {s : γ} (h : P s) :
    P (Backpressure.releaseUnused (O := O) (R := R) c units now s).1

variable {P : γ → Prop} {s : γ}

/-- Whether a request is granted or refused midway and undone, a chain keeps what its components
keep. -/
theorem acquire_keeps (hk : Kept κ O R P) (units now : UInt64) (chain : List κ) (h : P s) :
    P (Chain.acquire (O := O) (R := R) units now chain s).2.1 := by
  induction chain generalizing s with
  | nil => exact h
  | cons c rest ih =>
    have hc := hk.acquire c units now h
    rw [Chain.acquire]
    -- A refusal further on makes this component give back what it granted.
    rcases hfirst : Backpressure.acquire (O := O) (R := R) c units now s with ⟨_ | r, t, notes⟩
    · rw [hfirst] at hc
      have hrest := ih hc
      dsimp only
      rcases hmore : Chain.acquire (O := O) (R := R) units now rest t with ⟨_ | refusal, u, more⟩
      · rwa [hmore] at hrest
      · rw [hmore] at hrest
        exact hk.releaseUnused c units now hrest
    · rwa [hfirst] at hc

theorem releaseUnused_keeps (hk : Kept κ O R P) (units now : UInt64) (chain : List κ) (h : P s) :
    P (Chain.releaseUnused (O := O) (R := R) units now chain s).1 := by
  induction chain with
  | nil => exact h
  | cons c rest ih => exact hk.releaseUnused c units now ih

theorem release_keeps {units : UInt64} {outcome : O} {now : UInt64}
    {results : Array (RollingCounts O)}
    (hk : ∀ (c : κ) {s : γ}, P s →
      P (Backpressure.release (R := R) c units outcome now results s).1)
    (chain : List κ) (h : P s) :
    P (Chain.release (R := R) units outcome now results chain s).1 := by
  induction chain generalizing s with
  | nil => exact h
  | cons c rest ih => exact ih (hk c h)

/-- A request that the components in `granted` grant and the component `c` refuses, whereupon the
former get their permits back as unused: the state before, and the state after. -/
def Refused (O : Type) {R : Type} [Outcome O] [Backpressure κ γ O R] (units now : UInt64)
    (granted : List κ) (c : κ) (r : R) (s after : γ) : Prop :=
  ∃ mid asked refused told,
    Chain.acquire (O := O) (R := R) units now granted s = (none, mid, asked) ∧
      Backpressure.acquire (O := O) (R := R) c units now mid = (some r, refused, told) ∧
      after = (Chain.releaseUnused (O := O) (R := R) units now granted refused).1

/-- A component that refuses after others have granted is the one that the chain names. -/
theorem Refused.acquire_concat {units now : UInt64} {granted : List κ} {c : κ} {r : R} {after : γ}
    (h : Refused O units now granted c r s after) :
    (Chain.acquire (O := O) (R := R) units now (granted ++ [c]) s).1 = some (r, c) := by
  obtain ⟨mid, asked, refused, told, hgranted, hrefused, -⟩ := h
  induction granted generalizing s asked with
  | nil =>
    cases hgranted
    rw [List.nil_append, Chain.acquire, hrefused]
  | cons d granted ih =>
    rw [Chain.acquire] at hgranted
    rcases hfirst : Backpressure.acquire (O := O) (R := R) d units now s with ⟨_ | r', t, told'⟩
    · rw [hfirst] at hgranted
      dsimp only at hgranted
      rcases hmore : Chain.acquire (O := O) (R := R) units now granted t with ⟨_ | refusal, u, more⟩
      · rw [hmore] at hgranted
        cases hgranted
        have hrest := ih _ hmore
        rw [List.cons_append, Chain.acquire, hfirst]
        dsimp only
        rcases hall : Chain.acquire (O := O) (R := R) units now (granted ++ [c]) t with
          ⟨_ | refusal, v, told''⟩
        · rw [hall] at hrest
          cases hrest
        · rw [hall] at hrest
          exact hrest
      · rw [hmore] at hgranted
        cases hgranted
    · rw [hfirst] at hgranted
      cases hgranted

/-- Every refused request is granted by the components before the one that refuses it. -/
theorem exists_refused_of_acquire {units now : UInt64} {chain : List κ} {r : R} {c : κ}
    (h : (Chain.acquire (O := O) (R := R) units now chain s).1 = some (r, c)) :
    ∃ granted rest, chain = granted ++ c :: rest ∧
      Refused O units now granted c r s
        (Chain.acquire (O := O) (R := R) units now chain s).2.1 := by
  induction chain generalizing s with
  | nil => cases h
  | cons d chain ih =>
    rw [Chain.acquire] at h ⊢
    rcases hfirst : Backpressure.acquire (O := O) (R := R) d units now s with ⟨_ | r', t, told⟩
    · rw [hfirst] at h
      dsimp only at h ⊢
      rcases hmore : Chain.acquire (O := O) (R := R) units now chain t with ⟨_ | refusal, u, more⟩
      · rw [hmore] at h
        cases h
      · rw [hmore] at h
        cases h
        have hrest := ih (s := t)
        rw [hmore] at hrest
        -- Some component further on refuses, and this one is the last to get its permits back.
        obtain ⟨granted, rest, rfl, mid, asked, refused, told', hgranted, hrefused, hafter⟩ :=
          hrest rfl
        refine ⟨d :: granted, rest, rfl, mid, told ++ asked, refused, told', ?_, hrefused, ?_⟩
        · rw [Chain.acquire, hfirst]
          dsimp only
          rw [hgranted]
        · change (Backpressure.releaseUnused (O := O) (R := R) d units now u).1 =
            (Backpressure.releaseUnused (O := O) (R := R) d units now
              (Chain.releaseUnused (O := O) (R := R) units now granted refused).1).1
          rw [← hafter]
    · rw [hfirst] at h
      cases h
      exact ⟨[], chain, rfl, s, [], t, told, rfl, hfirst, rfl⟩

end Admission.Chain
