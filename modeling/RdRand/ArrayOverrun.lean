import RdRand.EncryptedOutput
import RdRand.SlowPath

namespace RdRand

/-!
# Stores behind the arrays

The slices of a round lie in `gen_current`, and the ending lies in an array of
its own.  A retry of the slow path stays in `gen_current` as long as at most an
eighth of the words has been counted.  Past that its size has wrapped around,
and what the device yields is stored behind the array: the process writes to
memory that it does not know, and no result can be told for it.
-/

open ControlLoop

/-- A store of the fill reaches past an address. -/
def Fill.overruns (fill : Fill) (bound : Nat) : Bool :=
  fill.stores.any fun store =>
    decide (bound < store.address + store.bytes.length)

/-- A sound fill overruns no array that holds its target. -/
theorem Fill.Sound.overruns_eq_false
    {device : Device}
    {start dest unit count bound : Nat}
    {fill : Fill}
    (sound : fill.Sound device start dest unit count)
    (room : dest + unit * count ≤ bound) :
    fill.overruns bound = false := by
  rw [Fill.overruns, List.any_eq_false]
  intro store member
  have inside := (sound.inside store member).2
  simp only [decide_eq_true_eq]
  omega

section Arrays

variable
  {Aes : Type}
  (env : Environment)
  (encBuffer : EncBuffer Aes)
  (bound : Nat)

/-- Some of the bodies of a parallel region overrun `gen_current`. -/
def bodiesOverrun
    (state : ChunkState Aes) : List Nat → Region Aes → Bool
  | [], _ =>
      false
  | i :: rest, region =>
      (decide (i < state.config.threads) && state.generates &&
          (sliceFill env state i region.position).overruns bound) ||
        bodiesOverrun state rest
          (parallelBody env encBuffer state region i)

/-- Some of the retries of the slow refill do. -/
def slowOverruns
    (state : ChunkState Aes) : Nat → SlowFill → Bool
  | 0, _ =>
      false
  | cycles + 1, slow =>
      if slow.written = state.bufSize then
        false
      else
        let fill :=
          generateWithMetod env.device state.config slow.written
            (slowSize state.config slow.written)
            slowRetryLimit slow.position
        fill.overruns bound ||
          slowOverruns state cycles
            { written := slow.written + fill.generated / 8
              contents := fill.applyTo slow.contents
              position := fill.position }

/-- A pass over the chunk loop does, in its region or in its slow path. -/
def passOverruns (state : ChunkState Aes) : Bool :=
  let region := parallelFor env encBuffer state
  bodiesOverrun env encBuffer bound state (state.order env)
      state.startRegion ||
    decide
        (region.written ≠ state.bufSize ∧
          state.n < state.config.chunkCount ∧
          state.config.threads = 1) &&
      slowOverruns env bound (state.afterRegion region)
        slowRetryLimitCycles
        { written := region.written
          contents := region.memory state.genCurrent
          position := region.position }

/-- `generate` overruns an array: in its chunk loop, or in its ending. -/
def generateOverruns
    (encBuffer : EncBuffer AesState)
    (config : Cnf)
    (aes : AesState)
    (passes : Nat) : Bool :=
  let status := generateChunk env encBuffer config aes passes
  ((chunkLoop env encBuffer).visited passes
      (chunkStart env config aes)).any
      (passOverruns env encBuffer config.roundBytes) ||
    status.ended &&
      (endingFill env status.state).overruns
        (env.endingAddress + status.state.config.endingBytes)

end Arrays

section Passes

variable
  {Aes : Type}
  {env : Environment}
  {encBuffer : EncBuffer Aes}
  {bound : Nat}
  {state : ChunkState Aes}

/-- The bodies of a region store inside the array. -/
theorem bodiesOverrun_eq_false
    (room : 8 * (state.config.chunkSize * state.config.threads) ≤ bound)
    (order : List Nat)
    (region : Region Aes) :
    bodiesOverrun env encBuffer bound state order region = false := by
  induction order generalizing region with
  | nil =>
      rfl
  | cons i rest inductionHypothesis =>
      rw [bodiesOverrun, inductionHypothesis, Bool.or_false]
      by_cases generating : i < state.config.threads
      · have slice :
            state.config.chunkSize * (i + 1) ≤
              state.config.chunkSize * state.config.threads :=
          Nat.mul_le_mul_left _ generating
        have inside :
            (sliceFill env state i region.position).overruns bound =
              false := by
          apply (sliceFill_sound env state i region.position).overruns_eq_false
          rw [Nat.mul_succ, Nat.mul_comm _ i] at slice
          omega
        rw [inside, Bool.and_false]
      · rw [decide_eq_false generating, Bool.false_and, Bool.false_and]

/--
The slow refill of a single thread stores inside the array if it starts with
at most an eighth of the words: it never gets past them.
-/
theorem slowOverruns_early
    (oneThread : state.config.threads = 1)
    (bounded : state.config.chunkSize ≤ maxChunkSize)
    (size : state.bufSize = state.config.chunkSize)
    (room : 8 * state.config.chunkSize ≤ bound)
    (cycles : Nat)
    {slow : SlowFill}
    (early : 8 * slow.written ≤ state.config.chunkSize) :
    slowOverruns env bound state cycles slow = false := by
  induction cycles generalizing slow with
  | zero =>
      rfl
  | succ cycles inductionHypothesis =>
      rw [slowOverruns]
      split
      · rfl
      · next unfinished =>
          have short : slow.written < state.config.chunkSize := by
            omega
          have inside :=
            (slowCall_inside_iff oneThread bounded short).mpr early
          have counted := slowSize_oneThread oneThread bounded short
          rw [if_pos early] at counted
          have fits :
              slowSize state.config slow.written < uintModulus :=
            Nat.mod_lt _ (by decide)
          have sound :=
            generateWithMetod_sound env.device state.config slow.written
              fits slowRetryLimit slow.position
          have here :
              (generateWithMetod env.device state.config slow.written
                (slowSize state.config slow.written) slowRetryLimit
                slow.position).overruns bound = false := by
            apply sound.overruns_eq_false
            rw [Nat.one_mul]
            exact Nat.le_trans inside room
          have few := sound.bounded
          simp only [here, Bool.false_or]
          apply inductionHypothesis
          simp only
          omega

/--
A retry made past an eighth of the words overruns the array if the device
yields what it asks for.
-/
theorem slowOverruns_late
    (oneThread : state.config.threads = 1)
    (bounded : state.config.chunkSize ≤ maxChunkSize)
    (size : state.bufSize = state.config.chunkSize)
    (room : 8 * state.config.chunkSize ≤ bound)
    (small : bound + 8 * state.config.chunkSize ≤ uintModulus)
    (cycles : Nat)
    {slow : SlowFill}
    (short : slow.written < state.config.chunkSize)
    (late : state.config.chunkSize < 8 * slow.written)
    (yields :
      (generateWithMetod env.device state.config slow.written
        (slowSize state.config slow.written) slowRetryLimit
        slow.position).generated =
          slowSize state.config slow.written) :
    slowOverruns env bound state (cycles + 1) slow = true := by
  have wrapped := slowSize_oneThread oneThread bounded short
  rw [if_neg (Nat.not_le.mpr late)] at wrapped
  have fits : slowSize state.config slow.written < uintModulus :=
    Nat.mod_lt _ (by decide)
  have sound :=
    generateWithMetod_sound env.device state.config slow.written fits
      slowRetryLimit slow.position
  obtain ⟨store, member, covers⟩ :=
    sound.complete yields bound (by omega) (by omega)
  rw [slowOverruns, if_neg (by omega)]
  refine Bool.or_eq_true_iff.mpr (.inl ?_)
  exact List.any_eq_true.mpr ⟨store, member, decide_eq_true covers.2⟩

/--
A pass overruns the array only where the code cannot recover from what comes
short: where a single thread has got past an eighth of its buffer.
-/
theorem passOverruns_not_recoverable
    {config : Cnf}
    (setup : state.Setup config)
    (bounded : config.chunkSize ≤ maxChunkSize)
    (overruns :
      passOverruns env encBuffer config.roundBytes state = true) :
    ¬ Recoverable env encBuffer state := by
  intro recoverable
  have chunkSize : state.config.chunkSize = config.chunkSize :=
    setup.request.chunkSize
  have slices :
      8 * (state.config.chunkSize * state.config.threads) ≤
        config.roundBytes := by
    rw [Cnf.roundBytes, chunkSize]
    have fewer :=
      Nat.mul_le_mul_left config.chunkSize setup.threadsBounded
    omega
  simp only [passOverruns, bodiesOverrun_eq_false slices, Bool.false_or,
    Bool.and_eq_true, decide_eq_true_eq] at overruns
  obtain ⟨⟨short, wanted, oneThread⟩, overruns⟩ := overruns
  rw [oneThread, Nat.mul_one] at slices
  have generates : state.generates = true := by
    simp [ChunkState.generates, wanted]
  have incomplete : ¬ SlicesComplete env encBuffer state := by
    rw [← parallelFor_written_eq_iff setup.arrays generates]
    exact short
  have few := (recoverable generates incomplete).2 oneThread
  have words :=
    parallelFor_written_oneThread env encBuffer oneThread generates
  have size := setup.arrays.size
  rw [oneThread, Nat.mul_one] at size
  have inside :
      slowOverruns env config.roundBytes
          (state.afterRegion (parallelFor env encBuffer state))
          slowRetryLimitCycles
          { written := (parallelFor env encBuffer state).written
            contents :=
              (parallelFor env encBuffer state).memory state.genCurrent
            position := (parallelFor env encBuffer state).position } =
        false := by
    apply slowOverruns_early
    · exact oneThread
    · change state.config.chunkSize ≤ maxChunkSize
      omega
    · exact size
    · exact slices
    · change 8 * (parallelFor env encBuffer state).written ≤
        state.config.chunkSize
      omega
  rw [inside] at overruns
  cases overruns

end Passes

/-- Whatever `generate` overruns, it comes to a pass it cannot recover from. -/
theorem generateOverruns_reached
    {env : Environment}
    {encBuffer : EncBuffer AesState}
    {config : Cnf}
    (bounded : config.chunkSize ≤ maxChunkSize)
    {aes : AesState}
    {passes : Nat}
    (overruns :
      generateOverruns env encBuffer config aes passes = true) :
    ∃ earlier state,
      earlier < passes ∧
        generateChunk env encBuffer config aes earlier =
          .running state ∧
        ¬ Recoverable env encBuffer state := by
  have ending :
      ∀ state : ChunkState AesState,
        (endingFill env state).overruns
            (env.endingAddress + state.config.endingBytes) =
          false := by
    intro state
    apply (endingFill_sound env state).overruns_eq_false
    rw [Nat.one_mul]
  simp only [generateOverruns, ending, Bool.and_false, Bool.or_false,
    List.any_eq_true] at overruns
  obtain ⟨state, member, overruns⟩ := overruns
  obtain ⟨earlier, within, running, _⟩ := Loop.visited_reached member
  exact
    ⟨earlier, state, within, running,
      passOverruns_not_recoverable (chunkLoop_setup running) bounded
        overruns⟩

/-- On a device that never fails `generate` overruns nothing. -/
theorem generateOverruns_neverFails
    {env : Environment}
    (encBuffer : EncBuffer AesState)
    (neverFails : env.device.NeverFails)
    {config : Cnf}
    (split : config.Split)
    (realMethod : config.method ≠ .methodsCount)
    (aes : AesState)
    (passes : Nat) :
    generateOverruns env encBuffer config aes passes = false := by
  rw [← Bool.not_eq_true]
  intro overruns
  obtain ⟨_, state, _, running, unrecoverable⟩ :=
    generateOverruns_reached split.chunkBounded overruns
  exact
    unrecoverable
      (recoverable_of_neverFails neverFails split realMethod
        (chunkLoop_setup running))

end RdRand
