import Mathlib.Data.List.Induction
import RdRand.Generator

namespace RdRand

/-!
# Outputs of a trace

Statements about what the generator writes speak about every output event of
a trace together with the events before it.
-/

section Outputs

variable {Aes : Type}

/-- The event is no output. -/
def Event.Quiet : Event Aes → Prop
  | .generated _ => True
  | .encrypted _ _ => True
  | .output _ _ _ _ => False

/--
Every output of a trace, with the events before it, the data passed to
`fwrite`, and the state of the AES layer at that time, has a property.
-/
def EveryOutput
    (property : List (Event Aes) → List Cell → Aes → Prop)
    (trace : List (Event Aes)) : Prop :=
  ∀ before data acceptedBytes position aes after,
    trace = before ++ .output data acceptedBytes position aes :: after →
    property before data aes

variable {property : List (Event Aes) → List Cell → Aes → Prop}

theorem everyOutput_nil : EveryOutput property [] := by
  intro before data acceptedBytes position aes after split
  simp at split

/-- An event at the end of a trace matters only if it is an output. -/
theorem everyOutput_snoc
    {trace : List (Event Aes)}
    {event : Event Aes}
    (earlier : EveryOutput property trace)
    (last :
      ∀ data acceptedBytes position aes,
        event = .output data acceptedBytes position aes →
        property trace data aes) :
    EveryOutput property (trace ++ [event]) := by
  intro before data acceptedBytes position aes after split
  induction after using List.reverseRecOn with
  | nil =>
      obtain ⟨sameTrace, sameEvent⟩ :=
        List.append_inj' split rfl
      subst sameTrace
      exact last data acceptedBytes position aes
        (List.singleton_inj.mp sameEvent)
  | append_singleton rest final _ =>
      rw [← List.cons_append, ← List.append_assoc] at split
      obtain ⟨sameTrace, _⟩ := List.append_inj' split rfl
      exact earlier before data acceptedBytes position aes rest sameTrace

/-- A trace without outputs may be appended. -/
theorem everyOutput_append
    {trace more : List (Event Aes)}
    (earlier : EveryOutput property trace)
    (quiet : ∀ event ∈ more, event.Quiet) :
    EveryOutput property (trace ++ more) := by
  induction more using List.reverseRecOn with
  | nil =>
      simpa using earlier
  | append_singleton rest final inductionHypothesis =>
      rw [← List.append_assoc]
      apply everyOutput_snoc
      · apply inductionHypothesis
        intro event member
        exact quiet event (List.mem_append_left _ member)
      · intro data acceptedBytes position aes isOutput
        have noOutput := quiet final (by simp)
        rw [isOutput] at noOutput
        cases noOutput

/-- The bytes that reached the output stream. -/
def outputLength (trace : List (Event Aes)) : Nat :=
  (outputCells trace).length

/-- The device position after an event, for events that record one. -/
def Event.positionAfter (position : Nat) : Event Aes → Nat
  | .generated _ => position
  | .encrypted _ _ => position
  | .output _ _ reached _ => reached

/-- The device position at the last output of a trace, 0 before any. -/
def positionOfLastOutput (trace : List (Event Aes)) : Nat :=
  trace.foldl Event.positionAfter 0

@[simp] theorem positionOfLastOutput_nil :
    positionOfLastOutput ([] : List (Event Aes)) = 0 :=
  rfl

@[simp] theorem positionOfLastOutput_snoc
    (trace : List (Event Aes))
    (event : Event Aes) :
    positionOfLastOutput (trace ++ [event]) =
      event.positionAfter (positionOfLastOutput trace) := by
  simp [positionOfLastOutput]

/-- What only outputs change, events that are no outputs leave alone. -/
theorem foldl_quiet
    {State : Type}
    {step : State → Event Aes → State}
    (stays :
      ∀ state event, Event.Quiet event → step state event = state)
    (state : State)
    {more : List (Event Aes)}
    (quiet : ∀ event ∈ more, event.Quiet) :
    more.foldl step state = state := by
  induction more with
  | nil =>
      rfl
  | cons event rest inductionHypothesis =>
      rw [List.foldl_cons, stays state event (quiet event (by simp))]
      apply inductionHypothesis
      intro later member
      exact quiet later (List.mem_cons_of_mem event member)

/-- Events that are no outputs leave the position of the last one. -/
theorem positionOfLastOutput_append
    (trace : List (Event Aes))
    {more : List (Event Aes)}
    (quiet : ∀ event ∈ more, event.Quiet) :
    positionOfLastOutput (trace ++ more) =
      positionOfLastOutput trace := by
  rw [positionOfLastOutput, List.foldl_append]
  refine foldl_quiet ?_ _ quiet
  intro position event noOutput
  cases event with
  | generated contents =>
      rfl
  | encrypted source written =>
      rfl
  | output data acceptedBytes reached aes =>
      cases noOutput

/-- The state of the AES layer after an event, for events that record one. -/
def Event.aesAfter (aes : Aes) : Event Aes → Aes
  | .generated _ => aes
  | .encrypted _ _ => aes
  | .output _ _ _ reached => reached

/-- The state of the AES layer at the last output, or at the start. -/
def aesOfLastOutput (start : Aes) (trace : List (Event Aes)) : Aes :=
  trace.foldl Event.aesAfter start

@[simp] theorem aesOfLastOutput_snoc
    (start : Aes)
    (trace : List (Event Aes))
    (event : Event Aes) :
    aesOfLastOutput start (trace ++ [event]) =
      event.aesAfter (aesOfLastOutput start trace) := by
  simp [aesOfLastOutput]

/-- Events that are no outputs leave the state at the last one. -/
theorem aesOfLastOutput_append
    (start : Aes)
    (trace : List (Event Aes))
    {more : List (Event Aes)}
    (quiet : ∀ event ∈ more, event.Quiet) :
    aesOfLastOutput start (trace ++ more) =
      aesOfLastOutput start trace := by
  rw [aesOfLastOutput, List.foldl_append]
  refine foldl_quiet ?_ _ quiet
  intro aes event noOutput
  cases event with
  | generated contents =>
      rfl
  | encrypted source written =>
      rfl
  | output data acceptedBytes position reached =>
      cases noOutput

@[simp] theorem outputCells_append
    (first second : List (Event Aes)) :
    outputCells (first ++ second) =
      outputCells first ++ outputCells second := by
  simp [outputCells]

@[simp] theorem outputCells_nil :
    outputCells ([] : List (Event Aes)) = [] :=
  rfl

@[simp] theorem outputCells_cons
    (event : Event Aes)
    (rest : List (Event Aes)) :
    outputCells (event :: rest) =
      event.outputCells ++ outputCells rest :=
  rfl

@[simp] theorem Event.outputCells_generated
    (contents : List Cell) :
    (.generated contents : Event Aes).outputCells = [] :=
  rfl

@[simp] theorem Event.outputCells_encrypted
    (source written : List Cell) :
    (.encrypted source written : Event Aes).outputCells = [] :=
  rfl

@[simp] theorem Event.outputCells_output
    (data : List Cell)
    (acceptedBytes position : Nat)
    (aes : Aes) :
    (.output data acceptedBytes position aes : Event Aes).outputCells =
      data.take acceptedBytes :=
  rfl

/-- Events that are no outputs put nothing out. -/
theorem outputCells_quiet
    {more : List (Event Aes)}
    (quiet : ∀ event ∈ more, event.Quiet) :
    outputCells more = [] := by
  rw [outputCells, List.flatMap_eq_nil_iff]
  intro event member
  cases event with
  | generated contents =>
      rfl
  | encrypted source written =>
      rfl
  | output data acceptedBytes position aes =>
      cases quiet _ member

end Outputs

end RdRand
