import RdRand.ChunkLoop
import RdRand.OutputTrace

namespace RdRand

/-!
# Progress of the chunk loop

A pass that does not underflow, under complete writes, goes on to the finished
state and adds one buffer to the output.  How much a whole run writes, and
whether it ends at all, follows from counting such passes.
-/

open ControlLoop

/-- Every `fwrite` accepts all of its items. -/
def Environment.WritesAll (env : Environment) : Prop :=
  ∀ call items, env.accepts call items = items

section Progress

variable
  {Aes : Type}
  {env : Environment}
  {encBuffer : EncBuffer Aes}

/-- A pass that does not underflow is finished after its region. -/
theorem chunkPass_recovered
    {state : ChunkState Aes}
    (recovered : ¬ Underflows env encBuffer state) :
    chunkPass env encBuffer state =
      finishPass env (state.filled env encBuffer) := by
  cases chunkPass_cases env encBuffer state with
  | rerun underflows threads pass =>
      exact absurd underflows recovered
  | giveUp underflows oneThread short pass =>
      exact absurd underflows recovered
  | finish base finishing pass =>
      cases finishing with
      | region _ =>
          exact pass
      | refill underflows oneThread whole =>
          exact absurd underflows recovered

/-- Under complete writes a finished pass asks for another one. -/
theorem finishPass_writesAll
    (writesAll : env.WritesAll)
    (state : ChunkState Aes) :
    finishPass env state = .again (state.finished env) := by
  rcases finishPass_cases env state with
    ⟨_, result⟩ | ⟨_, short, _⟩
  · exact result
  · exact absurd (writesAll state.writes state.bufSize) short

/-- A pass that neither underflows nor writes short goes on. -/
theorem chunkPass_proceeds
    (writesAll : env.WritesAll)
    {state : ChunkState Aes}
    (recovered : ¬ Underflows env encBuffer state) :
    chunkPass env encBuffer state =
      .again ((state.filled env encBuffer).finished env) := by
  rw [chunkPass_recovered recovered, finishPass_writesAll writesAll]

/-- Recording what a pass has generated adds no output. -/
theorem generatedEvents_quiet
    (state : ChunkState Aes) :
    ∀ event ∈ state.generatedEvents, event.Quiet := by
  intro event member
  unfold ChunkState.generatedEvents at member
  split at member
  · rw [List.mem_singleton.mp member]
    trivial
  · cases member

@[simp] theorem outputCells_generatedEvents (state : ChunkState Aes) :
    outputCells state.generatedEvents = [] :=
  outputCells_quiet (generatedEvents_quiet state)

/-- The trace of a parallel region: an encryption, if the pass encrypts. -/
theorem parallelFor_trace
    {state : ChunkState Aes}
    (arrays : state.Arrays) :
    (parallelFor env encBuffer state).trace =
      state.trace ++
        if state.encrypts then
          [.encrypted state.encryptionSource
            (state.encryption encBuffer).written]
        else
          [] := by
  cases encrypts : state.encrypts with
  | false =>
      have same := parallelFor_sameBesides env encBuffer encrypts
      simpa [ChunkState.startRegion] using same.trace
  | true =>
      simpa using
        (parallelFor_encrypted env encBuffer arrays encrypts).trace

/-- A parallel region writes nothing to the output stream. -/
theorem parallelFor_outputCells
    {state : ChunkState Aes}
    (arrays : state.Arrays) :
    outputCells (parallelFor env encBuffer state).trace =
      outputCells state.trace := by
  rw [parallelFor_trace arrays]
  split <;> simp

/-- Preparing a write adds no output. -/
theorem prepared_outputLength (state : ChunkState Aes) :
    outputLength state.prepared.trace = outputLength state.trace := by
  simp [outputLength]

/-- A write adds the words that `fwrite` accepts to the output. -/
theorem afterWrite_outputLength (state : ChunkState Aes) :
    outputLength (state.prepared.afterWrite env).trace =
      outputLength state.trace +
        8 * env.accepts state.writes state.bufSize := by
  have fits := env.accepts_le state.writes state.bufSize
  rw [← prepared_outputLength]
  simp [outputLength, ChunkState.afterWrite, fits]

/-- The bytes a finished pass adds to the output. -/
theorem finished_accepted (state : ChunkState Aes) :
    outputLength (state.finished env).trace =
      outputLength state.trace +
        if state.skipsWrite then
          0
        else
          8 * env.accepts state.writes state.bufSize := by
  unfold ChunkState.finished
  split
  · exact prepared_outputLength state
  · exact afterWrite_outputLength state

/-- The bytes a finished pass adds to the output under complete writes. -/
theorem finished_outputLength
    (writesAll : env.WritesAll)
    (state : ChunkState Aes) :
    (outputCells (state.finished env).trace).length =
      (outputCells state.trace).length +
        if state.skipsWrite then 0 else 8 * state.bufSize := by
  have accepted :
      outputLength (state.finished env).trace =
        outputLength state.trace +
          if state.skipsWrite then
            0
          else
            8 * env.accepts state.writes state.bufSize :=
    finished_accepted state
  rwa [writesAll] at accepted

/-- The bytes a finishing pass adds to the output under complete writes. -/
theorem Finishing.outputLength
    (writesAll : env.WritesAll)
    {state base : ChunkState Aes}
    (arrays : state.Arrays)
    (finishing : Finishing env encBuffer state base) :
    (outputCells (base.finished env).trace).length =
      (outputCells state.trace).length +
        if state.skipsWrite then 0 else 8 * state.bufSize := by
  have same := finishing.sameSetup
  have skips : base.skipsWrite = state.skipsWrite := by
    simp [ChunkState.skipsWrite, same.request.aesFlag, same.firstRun]
  rw [finished_outputLength writesAll, finishing.trace,
    parallelFor_outputCells arrays, skips, same.bufSize]

/-- The guard of a loop that is not unlimited compares the counter. -/
theorem ChunkState.Setup.guard_iff
    {config : Cnf}
    {state : ChunkState Aes}
    (setup : state.Setup config)
    (finite : 0 < config.bytes)
    (passesBounded :
      config.chunkCount + config.aesThread < sizeModulus) :
    state.guard = true ↔
      state.n < config.chunkCount + config.aesThread := by
  have sameThread : state.config.aesThread = config.aesThread := by
    simp [Cnf.aesThread, setup.request.aesFlag]
  simp [ChunkState.guard, setup.request.chunkCount, sameThread,
    setup.request.bytes, Nat.mod_eq_of_lt passesBounded,
    Nat.pos_iff_ne_zero.mp finite]

/-- The guard of a loop without AES asks for a generating pass. -/
theorem generates_of_guard
    {state : ChunkState Aes}
    (plain : state.config.aesFlag = false)
    (guarded : state.guard = true) :
    state.generates = true := by
  have le := Nat.mod_le state.config.chunkCount sizeModulus
  simp only [ChunkState.guard, ChunkState.generates, Cnf.aesThread,
    plain, Bool.or_eq_true, decide_eq_true_eq] at *
  simp only [Bool.false_eq_true, if_false, Nat.add_zero] at guarded
  omega

/-- A pass whose slices the device all fills does not underflow. -/
theorem not_underflows
    {state : ChunkState Aes}
    (arrays : state.Arrays)
    (complete :
      state.generates = true → SlicesComplete env encBuffer state) :
    ¬ Underflows env encBuffer state := by
  intro underflows
  have generates : state.generates = true := by
    simp [ChunkState.generates, underflows.wanted]
  exact underflows.short
    ((parallelFor_written_eq_iff arrays generates).mpr
      (complete generates))

/-- A wanted pass with a slice that the device does not fill underflows. -/
theorem underflows_of_incomplete
    {state : ChunkState Aes}
    (arrays : state.Arrays)
    (wanted : state.n < state.config.chunkCount)
    (incomplete : ¬ SlicesComplete env encBuffer state) :
    Underflows env encBuffer state := by
  have generates : state.generates = true := by
    simp [ChunkState.generates, wanted]
  refine ⟨?_, wanted⟩
  rw [Ne, parallelFor_written_eq_iff arrays generates]
  exact incomplete

/-- The chunk loop after so many passes without an underflow. -/
structure ChunkState.Steady
    (config : Cnf)
    (passes : Nat)
    (state : ChunkState Aes) : Prop where
  setup : state.Setup config
  threads : state.config.threads = config.threads
  n : state.n = passes % uintModulus
  firstRun : state.firstRun = (!config.aesFlag || decide (passes = 0))
  output :
    outputLength state.trace =
      config.roundBytes * (passes - config.aesThread)
  writtenTotal :
    state.writtenTotal =
      config.chunkSize * config.threads * (passes - config.aesThread) %
        sizeModulus

/-- The loop starts steadily. -/
theorem chunkStart_steady
    (config : Cnf)
    (aes : Aes) :
    (chunkStart env config aes).Steady config 0 where
  setup := chunkStart_setup config aes
  threads := rfl
  n := rfl
  firstRun := by
    simp [chunkStart]
  output := by
    rw [Nat.zero_sub, Nat.mul_zero]
    rfl
  writtenTotal := by
    simp [chunkStart]

/-- A pass without an underflow leads from steady state to steady state. -/
theorem chunkPass_steady
    (writesAll : env.WritesAll)
    {config : Cnf}
    {passes : Nat}
    {state : ChunkState Aes}
    (recovered : ¬ Underflows env encBuffer state)
    (steady : state.Steady config passes) :
    ((state.filled env encBuffer).finished env).Steady
      config (passes + 1) := by
  have setup := steady.setup
  have pass := chunkPass_proceeds writesAll recovered
  have finishing : Finishing env encBuffer state _ :=
    .region recovered
  have length :=
    finishing.outputLength writesAll setup.arrays
  have skips :
      state.skipsWrite =
        (config.aesFlag && decide (passes = 0)) := by
    rw [ChunkState.skipsWrite, steady.firstRun, setup.request.aesFlag]
    cases config.aesFlag <;> simp
  have size :
      state.bufSize = config.chunkSize * config.threads := by
    rw [setup.arrays.size, setup.request.chunkSize, steady.threads]
  have counted :
      passes + 1 - config.aesThread =
        passes - config.aesThread +
          if state.skipsWrite then 0 else 1 := by
    rw [skips, Cnf.aesThread]
    cases config.aesFlag with
    | false =>
        simp
    | true =>
        by_cases first : passes = 0
        · simp [first]
        · simp only [first, decide_false, Bool.and_false,
            Bool.false_eq_true, if_true, if_false]
          omega
  refine ⟨chunkPass_setup setup pass, ?_, ?_, ?_, ?_, ?_⟩
  · rw [finished_config, ← steady.threads]
    rfl
  · rw [finished_n]
    change ChunkState.increment state.n = _
    rw [steady.n, ChunkState.increment, Nat.mod_add_mod]
  · rw [finished_firstRun]
    change (!state.config.aesFlag && state.firstRun) = _
    rw [setup.request.aesFlag, steady.firstRun]
    cases config.aesFlag <;> simp
  · change outputLength _ = _ at length
    rw [length, counted, size]
    change outputLength state.trace + _ = _
    rw [steady.output, Nat.mul_add]
    split <;> simp [Cnf.roundBytes]
  · rw [finished_writtenTotal]
    change
      (if state.skipsWrite then
        state.writtenTotal
      else
        (state.writtenTotal + env.accepts state.writes state.bufSize) %
          sizeModulus) = _
    rw [writesAll, steady.writtenTotal, counted, size,
      Nat.mul_add, Nat.mod_add_mod]
    split <;> simp

end Progress

end RdRand
