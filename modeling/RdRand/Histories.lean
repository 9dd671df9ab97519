import Mathlib.Data.List.Infix

namespace Histories

/-!
# Histories

A history lists what happened, the first event first.  What is required of a
history is often required of each of its events, after the events before it.
Such a law holds of a history as far as every step keeps it.
-/

variable {Event Call : Type*}

/-- Every event of a history is allowed after the events before it. -/
def Each
    (allowed : List Event → Event → Prop)
    (history : List Event) : Prop :=
  ∀ earlier event later,
    history = earlier ++ event :: later →
    allowed earlier event

section Each

variable {allowed : List Event → Event → Prop}

@[simp] theorem each_nil : Each allowed [] := by
  intro earlier event later shape
  simp at shape

@[simp] theorem each_cons {event : Event} {rest : List Event} :
    Each allowed (event :: rest) ↔
      allowed [] event ∧
        Each (fun earlier => allowed (event :: earlier)) rest := by
  constructor
  · intro each
    refine ⟨each [] event rest rfl, ?_⟩
    rintro earlier next later rfl
    exact each (event :: earlier) next later rfl
  · rintro ⟨first, others⟩ earlier next later shape
    cases earlier with
    | nil =>
        cases shape
        exact first
    | cons head tail =>
        cases shape
        exact others tail next later rfl

/-- The events of a second part come after those of the first. -/
theorem each_append {first second : List Event} :
    Each allowed (first ++ second) ↔
      Each allowed first ∧
        Each (fun earlier => allowed (first ++ earlier)) second := by
  induction first generalizing allowed with
  | nil =>
      simp
  | cons event rest inductionHypothesis =>
      simp only [List.cons_append, each_cons, inductionHypothesis,
        and_assoc]

/-- An event of a history was allowed when it happened. -/
theorem Each.allowed_of_mem
    {history : List Event}
    {event : Event}
    (each : Each allowed history)
    (member : event ∈ history) :
    ∃ earlier, allowed earlier event := by
  obtain ⟨earlier, later, shape⟩ := List.mem_iff_append.mp member
  exact ⟨earlier, each earlier event later shape⟩

/-- The last event is the only one to look at. -/
theorem each_append_singleton {history : List Event} {event : Event} :
    Each allowed (history ++ [event]) ↔
      Each allowed history ∧ allowed history event := by
  simp [each_append]

/--
What is recorded of some calls keeps a law exactly if each call meets a
condition, where this is so of the last call as long as the law was kept.
-/
theorem each_record_iff
    {condition : List Call → Call → Prop}
    {record : List Call → List Event}
    (start : record [] = [])
    (grows : ∀ calls call, record calls <+: record (calls ++ [call]))
    (step :
      ∀ calls call,
        Each allowed (record calls) →
        (Each allowed (record (calls ++ [call])) ↔ condition calls call))
    (calls : List Call) :
    Each allowed (record calls) ↔ Each condition calls := by
  induction calls using List.reverseRecOn with
  | nil =>
      simp [start]
  | append_singleton calls call inductionHypothesis =>
      rw [each_append_singleton, ← inductionHypothesis]
      constructor
      · intro law
        obtain ⟨events, appended⟩ := grows calls call
        have before : Each allowed (record calls) := by
          rw [← appended] at law
          exact (each_append.mp law).1
        exact ⟨before, (step calls call before).mp law⟩
      · rintro ⟨before, met⟩
        exact (step calls call before).mpr met

/-- Two laws agree where they agree on each event as long as one is kept. -/
theorem each_iff_each
    {condition : List Event → Event → Prop}
    (step :
      ∀ earlier event,
        Each allowed earlier →
        (allowed earlier event ↔ condition earlier event))
    (history : List Event) :
    Each allowed history ↔ Each condition history := by
  change Each allowed (id history) ↔ _
  refine
    each_record_iff rfl (fun _ _ => List.prefix_append _ _) ?_ history
  intro earlier event kept
  rw [id, each_append_singleton]
  exact ⟨fun law => (step earlier event kept).mp law.2,
    fun met => ⟨kept, (step earlier event kept).mpr met⟩⟩

end Each

end Histories
