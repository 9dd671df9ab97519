import Mathlib.Data.List.Basic

namespace LastSettings

/-!
# Settings that override each other

Some entries of a list set a value, and a later entry overrides an earlier
one.  What is set in the end is the value of the last entry that sets one, so
that it depends on the entries that set this value and on no other.
-/

variable {Entry Value : Type*}

/-- The value set last, or the value before all entries. -/
def last
    (setting : Entry → Option Value)
    (before : Value)
    (entries : List Entry) : Value :=
  (entries.filterMap setting).getLast?.getD before

@[simp] theorem last_nil
    (setting : Entry → Option Value)
    (before : Value) :
    last setting before [] = before :=
  rfl

/-- The first entry sets the value that the others may override. -/
theorem last_cons
    (setting : Entry → Option Value)
    (before : Value)
    (entry : Entry)
    (entries : List Entry) :
    last setting before (entry :: entries) =
      last setting ((setting entry).getD before) entries := by
  unfold last
  cases sets : setting entry with
  | none =>
      rw [List.filterMap_cons_none sets, Option.getD_none]
  | some value =>
      rw [List.filterMap_cons_some sets, Option.getD_some,
        List.getLast?_cons, Option.getD_some]

/-- An entry that sets nothing changes nothing. -/
theorem last_cons_none
    {setting : Entry → Option Value}
    {entry : Entry}
    (sets : setting entry = none)
    (before : Value)
    (entries : List Entry) :
    last setting before (entry :: entries) =
      last setting before entries := by
  rw [last_cons, sets, Option.getD_none]

/-- Entries that cannot set the value can be left out. -/
theorem last_filter
    {setting : Entry → Option Value}
    {keep : Entry → Bool}
    (covers : ∀ entry, (setting entry).isSome = true → keep entry = true)
    (before : Value)
    (entries : List Entry) :
    last setting before (entries.filter keep) =
      last setting before entries := by
  induction entries generalizing before with
  | nil =>
      rfl
  | cons entry entries inductionHypothesis =>
      cases kept : keep entry with
      | true =>
          rw [List.filter_cons_of_pos kept, last_cons, last_cons,
            inductionHypothesis]
      | false =>
          have sets : setting entry = none := by
            rw [← Option.not_isSome_iff_eq_none]
            intro some
            rw [covers entry some] at kept
            cases kept
          rw [List.filter_cons_of_neg (by rw [kept]; nofun),
            last_cons_none sets, inductionHypothesis]

/-- What is set in the end depends on the entries that may set it. -/
theorem last_congr
    {setting : Entry → Option Value}
    {keep : Entry → Bool}
    (covers : ∀ entry, (setting entry).isSome = true → keep entry = true)
    (before : Value)
    {first second : List Entry}
    (same : first.filter keep = second.filter keep) :
    last setting before first = last setting before second := by
  rw [← last_filter covers before first, same, last_filter covers]

end LastSettings
