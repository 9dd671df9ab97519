import RdRand.ChunkLoop

namespace RdRand

/-!
# The order of the steps in the buffers

With AES the loop keeps two buffers of device words.  After passes of every
kind, whatever step they hold was taken before the position that the loop has
advanced to.
-/

open ControlLoop

section Order

variable
  {Aes : Type}
  {env : Environment}
  {encBuffer : EncBuffer Aes}

/-- What the device put into the two buffers came before the next step. -/
structure ChunkState.Ordered (state : ChunkState Aes) : Prop where
  current :
    StepsBefore state.position (state.memory state.genCurrent)
  previous :
    StepsBefore state.position (state.memory state.genPrevious)

/-- The arrays hold nothing from the device before the loop. -/
theorem chunkStart_ordered
    (config : Cnf)
    (aes : Aes) :
    (chunkStart env config aes).Ordered := by
  have stack :
      ∀ buffer,
        StepsBefore 0 (env.stack .generateChunk buffer) := by
    intro buffer offset step origin
    rw [env.stack_origin] at origin
    cases origin
  exact ⟨stack _, stack _⟩

/-- No body of a region with AES touches `gen_previous`. -/
theorem parallelFor_genPrevious
    {state : ChunkState Aes}
    (arrays : state.Arrays)
    (flag : state.config.aesFlag = true) :
    (parallelFor env encBuffer state).memory state.genPrevious =
      state.memory state.genPrevious := by
  obtain ⟨_, _, different⟩ := arrays.separate flag
  cases encrypts : state.encrypts with
  | false =>
      exact
        (parallelFor_sameBesides env encBuffer encrypts).memory _
          different.symm
  | true =>
      exact
        (parallelFor_encrypted env encBuffer arrays encrypts).genPrevious

/-- A parallel region keeps the order of the steps. -/
theorem filled_ordered
    {state : ChunkState Aes}
    (arrays : state.Arrays)
    (flag : state.config.aesFlag = true)
    (ordered : state.Ordered) :
    (state.filled env encBuffer).Ordered where
  current :=
    parallelFor_stepsBefore env encBuffer state arrays ordered.current
  previous := by
    change
      StepsBefore (parallelFor env encBuffer state).position
        ((parallelFor env encBuffer state).memory state.genPrevious)
    rw [parallelFor_genPrevious arrays flag]
    exact ordered.previous.mono (parallelFor_advances env encBuffer state)

/-- The slow refill stores only what the device gave before its end. -/
theorem slowRefill_before
    (state : ChunkState Aes)
    (cycles : Nat)
    {slow : SlowFill}
    (before : StepsBefore slow.position slow.contents) :
    StepsBefore (slowRefill env state cycles slow).position
      (slowRefill env state cycles slow).contents := by
  induction cycles generalizing slow with
  | zero =>
      exact before
  | succ cycles inductionHypothesis =>
      unfold slowRefill
      split
      · exact before
      · have small :
            slowSize state.config slow.written < uintModulus :=
          Nat.mod_lt _ (by decide)
        apply inductionHypothesis
        exact
          (generateWithMetod_sound env.device state.config slow.written
            small slowRetryLimit slow.position).applyTo_before before

/-- Up to its finish a pass keeps the order of the steps. -/
theorem Finishing.ordered
    {state base : ChunkState Aes}
    (arrays : state.Arrays)
    (flag : state.config.aesFlag = true)
    (ordered : state.Ordered)
    (finishing : Finishing env encBuffer state base) :
    base.Ordered := by
  have filled : (state.filled env encBuffer).Ordered :=
    filled_ordered arrays flag ordered
  obtain ⟨_, _, different⟩ := arrays.separate flag
  cases finishing with
  | region recovered =>
      exact filled
  | refill underflows oneThread whole =>
      refine ⟨?_, ?_⟩
      · change
          StepsBefore (state.slow env encBuffer).position
            ((state.filled env encBuffer).memory.set state.genCurrent
              (state.slow env encBuffer).contents state.genCurrent)
        rw [Memory.set_same]
        exact
          slowRefill_before (state.filled env encBuffer)
            slowRetryLimitCycles filled.current
      · change
          StepsBefore (state.slow env encBuffer).position
            ((state.filled env encBuffer).memory.set state.genCurrent
              (state.slow env encBuffer).contents state.genPrevious)
        rw [Memory.set_other _ different.symm]
        exact filled.previous.mono (slow_advances state)

/-- Finishing a pass with AES swaps the two buffers. -/
theorem finished_ordered
    {state : ChunkState Aes}
    (flag : state.config.aesFlag = true)
    (ordered : state.Ordered) :
    (state.finished env).Ordered where
  current := by
    rw [finished_position, finished_memory, finished_genCurrent,
      if_pos flag]
    exact ordered.previous
  previous := by
    rw [finished_position, finished_memory, finished_genPrevious,
      if_pos flag]
    exact ordered.current

/-- Every pass with AES keeps the order of the steps. -/
theorem chunkPass_ordered
    {state next : ChunkState Aes}
    (arrays : state.Arrays)
    (flag : state.config.aesFlag = true)
    (ordered : state.Ordered)
    (pass : chunkPass env encBuffer state = .again next) :
    next.Ordered := by
  cases chunkPass_again pass with
  | rerun underflows threads result =>
      have filled : (state.filled env encBuffer).Ordered :=
        filled_ordered arrays flag ordered
      rw [result]
      exact ⟨filled.current, filled.previous⟩
  | finish base finishing writes result =>
      have baseFlag : base.config.aesFlag = true :=
        finishing.sameSetup.request.aesFlag.trans flag
      rw [result]
      exact
        finished_ordered baseFlag
          (finishing.ordered arrays flag ordered)

/-- In every run with AES the steps stay in order. -/
theorem chunkLoop_ordered
    {config : Cnf}
    (flag : config.aesFlag = true)
    {aes : Aes}
    {passes : Nat}
    {state : ChunkState Aes}
    (running :
      (chunkLoop env encBuffer).run passes (chunkStart env config aes) =
        .running state) :
    state.Ordered := by
  refine Loop.running_invariant
    (fun _ reached => reached.Ordered)
    (chunkStart_ordered config aes) ?_ running
  intro count before after run guarded pass ordered
  have setup := chunkLoop_setup run
  exact
    chunkPass_ordered setup.arrays (setup.request.aesFlag.trans flag)
      ordered pass

end Order

end RdRand
