/-!
# Outcomes and reasons of refusal

Metrics count by a key from a finite vocabulary: the outcome of an admitted action, or the reason
of a refusal. Every key has its ordinal, and keys are listed in the order of their ordinals.

## Main definitions

* `MetricKey`: a finite vocabulary whose members have a name and an ordinal
* `MetricKey.variants`: all members, in order
* `Outcome`: a vocabulary of outcomes, which knows success, failure, timeout and cancellation
-/

namespace Admission

/-- A finite vocabulary of keys: a one-to-one numbering of its members, and their names. -/
class MetricKey (K : Type) where
  card : Nat
  ordinal : K → Fin card
  ofOrdinal : Fin card → K
  name : K → String
  ofOrdinal_ordinal : ∀ k, ofOrdinal (ordinal k) = k
  ordinal_ofOrdinal : ∀ i, ordinal (ofOrdinal i) = i

namespace MetricKey

variable {K : Type} [MetricKey K]

/-- Every member, in the order of the ordinals. -/
def variants (K : Type) [MetricKey K] : List K := List.ofFn (ofOrdinal (K := K))

/-- The member with a given name. -/
def ofName? (s : String) : Option K := (variants K).find? fun k => name k == s

theorem ordinal_lt (k : K) : (ordinal k).val < card K := (ordinal k).isLt

theorem ordinal_injective {k l : K} (h : ordinal k = ordinal l) : k = l := by
  rw [← ofOrdinal_ordinal k, h, ofOrdinal_ordinal]

theorem mem_variants (k : K) : k ∈ variants K := by
  rw [variants, List.mem_ofFn]
  exact ⟨ordinal k, ofOrdinal_ordinal k⟩

theorem nodup_variants : (variants K).Nodup := by
  rw [List.nodup_iff_pairwise_ne, List.pairwise_iff_getElem]
  intro i j hi hj hij h
  simp only [variants, List.getElem_ofFn] at h
  have := congrArg ordinal h
  simp only [ordinal_ofOrdinal, Fin.mk.injEq] at this
  omega

end MetricKey

/-- A vocabulary of outcomes of an admitted action. -/
class Outcome (O : Type) extends MetricKey O where
  isSuccess : O → Bool
  /-- Whether the outcome counts against the health of the guarded resource. -/
  isFailure : O → Bool := fun o => !isSuccess o
  /-- The outcome of an action that ran out of time. -/
  timeout : O
  /-- The outcome of an action that was cancelled. -/
  cancelled : O

end Admission
