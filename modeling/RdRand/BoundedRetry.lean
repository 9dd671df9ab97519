import Mathlib.Tactic.Common

namespace BoundedRetry

/-!
# Bounded retries

A loop reads outcomes from a sequence until one needs no other attempt, or
its attempts are exhausted.  It makes one attempt in any case.
-/

variable {Outcome : Type}

section Loop

variable (again : Outcome → Prop) [DecidablePred again]

/-- The position of the last attempt, with so many further ones allowed. -/
def lastAttempt (outcomes : Nat → Outcome) : Nat → Nat → Nat
  | 0, position => position
  | further + 1, position =>
      if again (outcomes position) then
        lastAttempt outcomes further (position + 1)
      else
        position

end Loop

variable
  {again : Outcome → Prop}
  [DecidablePred again]
  {outcomes : Nat → Outcome}

theorem le_lastAttempt (further position : Nat) :
    position ≤ lastAttempt again outcomes further position := by
  induction further generalizing position with
  | zero =>
      exact Nat.le_refl position
  | succ further inductionHypothesis =>
      unfold lastAttempt
      split
      · exact Nat.le_of_succ_le (inductionHypothesis (position + 1))
      · exact Nat.le_refl position

theorem lastAttempt_le (further position : Nat) :
    lastAttempt again outcomes further position ≤
      position + further := by
  induction further generalizing position with
  | zero =>
      exact Nat.le_refl position
  | succ further inductionHypothesis =>
      have bound := inductionHypothesis (position + 1)
      unfold lastAttempt
      split
      · omega
      · omega

/-- Every attempt before the last one asked for another. -/
theorem again_of_lt_lastAttempt
    {further position earlier : Nat}
    (notBefore : position ≤ earlier)
    (before : earlier < lastAttempt again outcomes further position) :
    again (outcomes earlier) := by
  induction further generalizing position with
  | zero =>
      exact absurd before (Nat.not_lt.mpr notBefore)
  | succ further inductionHypothesis =>
      unfold lastAttempt at before
      split at before
      · next asked =>
          rcases Nat.eq_or_lt_of_le notBefore with same | later
          · rwa [← same]
          · exact inductionHypothesis later before
      · exact absurd before (Nat.not_lt.mpr notBefore)

/-- A last attempt that asks for another one has exhausted them. -/
theorem lastAttempt_exhausted
    {further position : Nat}
    (asks :
      again (outcomes (lastAttempt again outcomes further position))) :
    lastAttempt again outcomes further position =
      position + further := by
  induction further generalizing position with
  | zero =>
      rfl
  | succ further inductionHypothesis =>
      unfold lastAttempt at asks ⊢
      split at asks
      · next asked =>
          rw [if_pos asked, inductionHypothesis asks]
          omega
      · next enough =>
          exact absurd asks enough

/-- The loop ends at the first attempt that asks for no other. -/
theorem lastAttempt_first
    {further position waited : Nat}
    (within : waited ≤ further)
    (asked : ∀ earlier < waited, again (outcomes (position + earlier)))
    (enough : ¬ again (outcomes (position + waited))) :
    lastAttempt again outcomes further position =
      position + waited := by
  apply Nat.le_antisymm
  · by_contra later
    exact enough
      (again_of_lt_lastAttempt (Nat.le_add_right position waited)
        (Nat.not_le.mp later))
  · by_contra earlier
    have notBefore :
        position ≤ lastAttempt again outcomes further position :=
      le_lastAttempt further position
    have asks :
        again
          (outcomes (lastAttempt again outcomes further position)) := by
      have known :=
        asked
          (lastAttempt again outcomes further position - position)
          (by omega)
      rwa [Nat.add_sub_cancel' notBefore] at known
    have exhausted := lastAttempt_exhausted asks
    omega

/-- Where every attempt asks for another one, they are exhausted. -/
theorem lastAttempt_all
    {further position : Nat}
    (asked : ∀ earlier ≤ further, again (outcomes (position + earlier))) :
    lastAttempt again outcomes further position =
      position + further := by
  apply lastAttempt_exhausted
  have notBefore :
      position ≤ lastAttempt again outcomes further position :=
    le_lastAttempt further position
  have bound :
      lastAttempt again outcomes further position ≤
        position + further :=
    lastAttempt_le further position
  have known :=
    asked
      (lastAttempt again outcomes further position - position)
      (by omega)
  rwa [Nat.add_sub_cancel' notBefore] at known

end BoundedRetry
