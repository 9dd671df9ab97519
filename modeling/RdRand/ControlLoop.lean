import Mathlib.Tactic.Common

namespace ControlLoop

/-!
# Guarded loops with early exits

A loop tests its guard before each pass, and a pass either asks for another
one or leaves the loop with a reason.  Running a loop for a number of passes
reports whether it is still running, has failed its guard, or was left early.
The rules below reduce a statement about runs of any length to one pass.
-/

/-- What one pass over a loop body asks for. -/
inductive Pass (State Exit : Type) where
  | again (next : State)
  | leave (exit : Exit) (final : State)

/-- The state a pass ends in. -/
def Pass.state {State Exit : Type} : Pass State Exit → State
  | .again next => next
  | .leave _ final => final

/-- Where a loop stands after a bounded number of passes. -/
inductive Status (State Exit : Type) where
  | running (current : State)
  | finished (final : State)
  | left (exit : Exit) (final : State)

namespace Status

/-- The state a status carries. -/
def state {State Exit : Type} : Status State Exit → State
  | .running current => current
  | .finished final => final
  | .left _ final => final

/-- The loop has come to an end. -/
def ended {State Exit : Type} : Status State Exit → Bool
  | .running _ => false
  | .finished _ => true
  | .left _ _ => true

end Status

/-- A guard and a body over one state. -/
structure Loop (State Exit : Type) where
  guard : State → Bool
  body : State → Pass State Exit

namespace Loop

variable {State Exit : Type} {loop : Loop State Exit}

/-- Run at most `passes` passes of a loop. -/
def run (loop : Loop State Exit) : Nat → State → Status State Exit
  | 0, state =>
      .running state
  | passes + 1, state =>
      if loop.guard state then
        match loop.body state with
        | .again next => run loop passes next
        | .leave exit final => .left exit final
      else
        .finished state

/-- The states that a bounded run makes a pass from. -/
def visited (loop : Loop State Exit) : Nat → State → List State
  | 0, _ =>
      []
  | passes + 1, state =>
      if loop.guard state then
        state ::
          match loop.body state with
          | .again next => visited loop passes next
          | .leave _ _ => []
      else
        []

@[simp] theorem run_zero (state : State) :
    loop.run 0 state = .running state :=
  rfl

/-- A pass that asks for another one hands its state to the remaining run. -/
theorem run_again
    {state next : State}
    (guarded : loop.guard state = true)
    (again : loop.body state = .again next)
    (passes : Nat) :
    loop.run (passes + 1) state = loop.run passes next := by
  simp [run, guarded, again]

/-- A pass that leaves ends every longer run. -/
theorem run_leave
    {state final : State}
    {exit : Exit}
    (guarded : loop.guard state = true)
    (leave : loop.body state = .leave exit final)
    (passes : Nat) :
    loop.run (passes + 1) state = .left exit final := by
  simp [run, guarded, leave]

/-- A failed guard finishes every longer run. -/
theorem run_finished
    {state : State}
    (unguarded : loop.guard state = false)
    (passes : Nat) :
    loop.run (passes + 1) state = .finished state := by
  simp [run, unguarded]

/-- A run that is still going continues from the state it reached. -/
theorem run_add
    {passes : Nat}
    {state reached : State}
    (running : loop.run passes state = .running reached)
    (more : Nat) :
    loop.run (passes + more) state = loop.run more reached := by
  induction passes generalizing state with
  | zero =>
      simp only [run_zero, Status.running.injEq] at running
      subst reached
      simp
  | succ passes inductionHypothesis =>
      rw [Nat.succ_add]
      by_cases guarded : loop.guard state = true
      · cases pass : loop.body state with
        | again next =>
            rw [run_again guarded pass] at running ⊢
            exact inductionHypothesis running
        | leave exit final =>
            rw [run_leave guarded pass] at running
            cases running
      · rw [run_finished (by simpa using guarded)] at running
        cases running

/-- A run that has ended stays as it is, however many passes are allowed. -/
theorem run_ended
    {passes : Nat}
    {state : State}
    (ended : (loop.run passes state).ended = true)
    (more : Nat) :
    loop.run (passes + more) state = loop.run passes state := by
  induction passes generalizing state with
  | zero =>
      cases ended
  | succ passes inductionHypothesis =>
      rw [Nat.succ_add]
      by_cases guarded : loop.guard state = true
      · cases pass : loop.body state with
        | again next =>
            rw [run_again guarded pass] at ended
            rw [run_again guarded pass, run_again guarded pass]
            exact inductionHypothesis ended
        | leave exit final =>
            rw [run_leave guarded pass, run_leave guarded pass]
      · have unguarded : loop.guard state = false := by
          simpa using guarded
        rw [run_finished unguarded, run_finished unguarded]

/-- The last pass of a run that is still going. -/
theorem running_last
    {passes : Nat}
    {state reached : State}
    (running : loop.run (passes + 1) state = .running reached) :
    ∃ before,
      loop.run passes state = .running before ∧
        loop.guard before = true ∧
        loop.body before = .again reached := by
  induction passes generalizing state with
  | zero =>
      by_cases guarded : loop.guard state = true
      · cases pass : loop.body state with
        | again next =>
            rw [run_again guarded pass, run_zero] at running
            cases running
            exact ⟨state, rfl, guarded, pass⟩
        | leave exit final =>
            rw [run_leave guarded pass] at running
            cases running
      · rw [run_finished (by simpa using guarded)] at running
        cases running
  | succ passes inductionHypothesis =>
      by_cases guarded : loop.guard state = true
      · cases pass : loop.body state with
        | again next =>
            rw [run_again guarded pass] at running
            obtain ⟨before, runsBefore, guardBefore, lastPass⟩ :=
              inductionHypothesis running
            refine ⟨before, ?_, guardBefore, lastPass⟩
            rw [run_again guarded pass]
            exact runsBefore
        | leave exit final =>
            rw [run_leave guarded pass] at running
            cases running
      · rw [run_finished (by simpa using guarded)] at running
        cases running

/-- One more pass of a run that is still going. -/
theorem run_snoc
    {passes : Nat}
    {state reached next : State}
    (running : loop.run passes state = .running reached)
    (guarded : loop.guard reached = true)
    (again : loop.body reached = .again next) :
    loop.run (passes + 1) state = .running next := by
  rw [run_add running, run_again guarded again, run_zero]

/-- A run that is still going finishes where its guard fails. -/
theorem run_snoc_finished
    {passes : Nat}
    {state reached : State}
    (running : loop.run passes state = .running reached)
    (unguarded : loop.guard reached = false) :
    loop.run (passes + 1) state = .finished reached := by
  rw [run_add running, run_finished unguarded]

/-- Two runs that have ended end alike. -/
theorem run_ended_unique
    {first second : Nat}
    {state : State}
    (firstEnded : (loop.run first state).ended = true)
    (secondEnded : (loop.run second state).ended = true) :
    loop.run first state = loop.run second state := by
  rw [← run_ended firstEnded second, Nat.add_comm,
    run_ended secondEnded first]

/-- A finished run was running in its final state, with the guard failing. -/
theorem finished_reached
    {passes : Nat}
    {state final : State}
    (finished : loop.run passes state = .finished final) :
    ∃ reachedAfter,
      reachedAfter < passes ∧
        loop.run reachedAfter state = .running final ∧
        loop.guard final = false := by
  induction passes generalizing state with
  | zero =>
      cases finished
  | succ passes inductionHypothesis =>
      by_cases guarded : loop.guard state = true
      · cases pass : loop.body state with
        | again next =>
            rw [run_again guarded pass] at finished
            obtain ⟨reachedAfter, bound, running, unguarded⟩ :=
              inductionHypothesis finished
            refine ⟨reachedAfter + 1, by omega, ?_, unguarded⟩
            rw [run_again guarded pass]
            exact running
        | leave exit final =>
            rw [run_leave guarded pass] at finished
            cases finished
      · have unguarded : loop.guard state = false := by
          simpa using guarded
        rw [run_finished unguarded] at finished
        cases finished
        exact ⟨0, by omega, rfl, unguarded⟩

/-- A run left early was running just before the pass that left it. -/
theorem left_reached
    {passes : Nat}
    {state final : State}
    {exit : Exit}
    (left : loop.run passes state = .left exit final) :
    ∃ reachedAfter before,
      reachedAfter < passes ∧
        loop.run reachedAfter state = .running before ∧
        loop.guard before = true ∧
        loop.body before = .leave exit final := by
  induction passes generalizing state with
  | zero =>
      cases left
  | succ passes inductionHypothesis =>
      by_cases guarded : loop.guard state = true
      · cases pass : loop.body state with
        | again next =>
            rw [run_again guarded pass] at left
            obtain ⟨reachedAfter, before, bound, running,
                guardBefore, lastPass⟩ :=
              inductionHypothesis left
            refine ⟨reachedAfter + 1, before, by omega, ?_,
              guardBefore, lastPass⟩
            rw [run_again guarded pass]
            exact running
        | leave exit' final' =>
            rw [run_leave guarded pass] at left
            cases left
            exact ⟨0, state, by omega, rfl, guarded, pass⟩
      · rw [run_finished (by simpa using guarded)] at left
        cases left

/-- A state that is visited was reached with passes left, and is guarded. -/
theorem visited_reached
    {passes : Nat}
    {start state : State}
    (member : state ∈ loop.visited passes start) :
    ∃ earlier,
      earlier < passes ∧
        loop.run earlier start = .running state ∧
        loop.guard state = true := by
  induction passes generalizing start with
  | zero =>
      cases member
  | succ passes inductionHypothesis =>
      unfold visited at member
      split at member
      · next guarded =>
          rcases List.mem_cons.mp member with rfl | later
          · exact ⟨0, Nat.succ_pos passes, rfl, guarded⟩
          · split at later
            · next next pass =>
                obtain ⟨earlier, within, running, guard⟩ :=
                  inductionHypothesis later
                refine ⟨earlier + 1, by omega, ?_, guard⟩
                rw [run_again guarded pass]
                exact running
            · cases later
      · cases member

/-- A run that has stopped took more passes than one that goes on. -/
theorem passes_lt_of_guard
    {passes total : Nat}
    {state reached final : State}
    (running : loop.run passes state = .running reached)
    (guarded : loop.guard reached = true)
    (stopped : loop.run total state = .running final)
    (unguarded : loop.guard final = false) :
    passes < total := by
  by_contra later
  obtain ⟨more, rfl⟩ := Nat.exists_eq_add_of_le (Nat.not_lt.mp later)
  rw [run_add stopped] at running
  cases more with
  | zero =>
      cases running
      rw [unguarded] at guarded
      cases guarded
  | succ more =>
      rw [run_finished unguarded] at running
      cases running

/--
The invariant rule.  What holds at the start, and is kept by every pass taken
from a state the run reaches, holds wherever the run is still going.  The
pass number is available to the invariant.
-/
theorem running_invariant
    {start : State}
    (invariant : Nat → State → Prop)
    (initially : invariant 0 start)
    (step :
      ∀ {passes : Nat} {before after : State},
        loop.run passes start = .running before →
        loop.guard before = true →
        loop.body before = .again after →
        invariant passes before →
        invariant (passes + 1) after)
    {passes : Nat}
    {reached : State}
    (running : loop.run passes start = .running reached) :
    invariant passes reached := by
  induction passes generalizing reached with
  | zero =>
      simp only [run_zero, Status.running.injEq] at running
      subst reached
      exact initially
  | succ passes inductionHypothesis =>
      obtain ⟨before, runsBefore, guarded, pass⟩ :=
        running_last running
      exact step runsBefore guarded pass
        (inductionHypothesis runsBefore)

/--
The outcome rule for a bounded run.  An invariant that holds at the start, and
is kept by every pass of the run that asks for another one, gives the outcome
wherever the run ends up, if a pass that leaves the loop turns it into the
outcome.
-/
theorem run_outcome
    {start : State}
    (invariant outcome : State → Prop)
    (passes : Nat)
    (initially : invariant start)
    (again :
      ∀ {earlier : Nat} {before after : State},
        earlier < passes →
        loop.run earlier start = .running before →
        loop.guard before = true →
        loop.body before = .again after →
        invariant before →
        invariant after)
    (leave :
      ∀ {earlier : Nat} {before final : State} {exit : Exit},
        earlier < passes →
        loop.run earlier start = .running before →
        loop.guard before = true →
        loop.body before = .leave exit final →
        invariant before →
        outcome final)
    (weaken : ∀ {state : State}, invariant state → outcome state) :
    outcome (loop.run passes start).state := by
  have running :
      ∀ {earlier : Nat} {reached : State},
        loop.run earlier start = .running reached →
        earlier ≤ passes →
        invariant reached := by
    intro earlier reached run
    refine running_invariant
      (fun count state => count ≤ passes → invariant state)
      (fun _ => initially) ?_ run
    intro count before after runsBefore guarded pass kept within
    exact again within runsBefore guarded pass
      (kept (Nat.le_of_succ_le within))
  cases status : loop.run passes start with
  | running current =>
      exact weaken (running status (Nat.le_refl passes))
  | finished final =>
      obtain ⟨earlier, bound, run, _⟩ := finished_reached status
      exact weaken (running run (Nat.le_of_lt bound))
  | left exit final =>
      obtain ⟨earlier, before, bound, run, guarded, pass⟩ :=
        left_reached status
      exact leave bound run guarded pass
        (running run (Nat.le_of_lt bound))

/--
The invariant rule for a bounded run.  What holds at the start, and is kept by
every pass of the run, holds of the state the run ends up in.
-/
theorem run_invariant
    {start : State}
    (invariant : State → Prop)
    (passes : Nat)
    (initially : invariant start)
    (again :
      ∀ {earlier : Nat} {before after : State},
        earlier < passes →
        loop.run earlier start = .running before →
        loop.guard before = true →
        loop.body before = .again after →
        invariant before →
        invariant after)
    (leave :
      ∀ {earlier : Nat} {before final : State} {exit : Exit},
        earlier < passes →
        loop.run earlier start = .running before →
        loop.guard before = true →
        loop.body before = .leave exit final →
        invariant before →
        invariant final) :
    invariant (loop.run passes start).state :=
  run_outcome invariant invariant passes initially again leave id

end Loop

end ControlLoop
