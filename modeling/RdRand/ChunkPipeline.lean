import RdRand.GenerateAmount

namespace RdRand

/-!
# The pipeline of the chunk loop

With AES the loop fills one buffer while it encrypts the one before, and a
last pass drains the pipeline.  The statements here hold for every order of
the parallel bodies and for every encryption that fills its destination.
-/

open ControlLoop

section Traces

variable {Aes : Type}

/-- The contents an event records as generated. -/
def Event.generatedBuffer : Event Aes → Option (List Cell)
  | .generated contents => some contents
  | .encrypted _ _ => none
  | .output _ _ _ _ => none

/-- The source an event records as encrypted. -/
def Event.encryptedSource : Event Aes → Option (List Cell)
  | .generated _ => none
  | .encrypted source _ => some source
  | .output _ _ _ _ => none

/-- The cells of one write that reached the output stream. -/
def Event.writtenBuffer : Event Aes → Option (List Cell)
  | .generated _ => none
  | .encrypted _ _ => none
  | .output data acceptedBytes _ _ => some (data.take acceptedBytes)

/-- The generated buffers of a trace, in order. -/
def generatedBuffers (trace : List (Event Aes)) : List (List Cell) :=
  trace.filterMap Event.generatedBuffer

/-- The sources passed to `rdrand_enc_buffer`, in order. -/
def encryptedSources (trace : List (Event Aes)) : List (List Cell) :=
  trace.filterMap Event.encryptedSource

/-- The written buffers of a trace, in order. -/
def writtenBuffers (trace : List (Event Aes)) : List (List Cell) :=
  trace.filterMap Event.writtenBuffer

/-- The output is the concatenation of the written buffers. -/
theorem outputCells_eq_flatten (trace : List (Event Aes)) :
    outputCells trace = (writtenBuffers trace).flatten := by
  induction trace with
  | nil =>
      rfl
  | cons event rest inductionHypothesis =>
      rw [outputCells_cons, inductionHypothesis]
      cases event with
      | generated contents =>
          rfl
      | encrypted source written =>
          rfl
      | output data acceptedBytes position aes =>
          rfl

/-- The encryptions of some buffers, one after the other. -/
def encryptAll
    (encBuffer : EncBuffer Aes) :
    Aes → List (List Cell) → List (List Cell) × Aes
  | aes, [] =>
      ([], aes)
  | aes, source :: rest =>
      let encryption := encBuffer aes source
      let later := encryptAll encBuffer encryption.aes rest
      (encryption.written :: later.1, later.2)

/-- One more buffer is encrypted in the state the others leave. -/
theorem encryptAll_snoc
    (encBuffer : EncBuffer Aes)
    (aes : Aes)
    (sources : List (List Cell))
    (source : List Cell) :
    encryptAll encBuffer aes (sources ++ [source]) =
      ((encryptAll encBuffer aes sources).1 ++
          [(encBuffer (encryptAll encBuffer aes sources).2
            source).written],
        (encBuffer (encryptAll encBuffer aes sources).2 source).aes) := by
  induction sources generalizing aes with
  | nil =>
      rfl
  | cons first rest inductionHypothesis =>
      simp only [List.cons_append, encryptAll, inductionHypothesis]

end Traces

/-- An encryption that fills its whole destination. -/
def EncBuffer.FillsDestination
    {Aes : Type}
    (encBuffer : EncBuffer Aes) : Prop :=
  ∀ aes source, (encBuffer aes source).written.length = source.length

section RaceFree

variable
  {Aes : Type}
  {env : Environment}
  {encBuffer : EncBuffer Aes}

/--
The slices of a pass partition `gen_current`, each generating body writes its
own slice only, and the encrypting body reads `gen_previous` only and writes
`buf` only.
-/
structure ChunkState.RaceFree
    (env : Environment)
    (encBuffer : EncBuffer Aes)
    (state : ChunkState Aes) : Prop where
  covered :
    ∀ index,
      index < state.bufSize →
      ∃ i,
        i < state.config.threads ∧
          i * state.config.chunkSize ≤ index ∧
          index < (i + 1) * state.config.chunkSize
  inside :
    ∀ i,
      i < state.config.threads →
      (i + 1) * state.config.chunkSize ≤ state.bufSize
  disjoint :
    ∀ i j,
      i < j →
      (i + 1) * state.config.chunkSize ≤ j * state.config.chunkSize
  apart :
    state.config.aesFlag = true →
    state.genCurrent ≠ .buf ∧
      state.genPrevious ≠ .buf ∧
      state.genCurrent ≠ state.genPrevious
  fillWrites :
    ∀ region i query offset,
      query ≠ state.genCurrent ∨
          offset < 8 * (i * state.config.chunkSize) ∨
          8 * ((i + 1) * state.config.chunkSize) ≤ offset →
      (fillBody env state region i).memory query offset =
        region.memory query offset
  encryptWrites :
    ∀ region query offset,
      query ≠ .buf ∨ state.bufSizeBytes ≤ offset →
      (encryptBody encBuffer state region).memory query offset =
        region.memory query offset
  encryptReads :
    ∀ region other : Region Aes,
      region.aes = other.aes →
      CellMemory.window (region.memory state.genPrevious)
          0 state.bufSizeBytes =
        CellMemory.window (other.memory state.genPrevious)
          0 state.bufSizeBytes →
      (encryptBody encBuffer state region).aes =
          (encryptBody encBuffer state other).aes ∧
        CellMemory.window
            ((encryptBody encBuffer state region).memory .buf)
            0 state.bufSizeBytes =
          CellMemory.window
            ((encryptBody encBuffer state other).memory .buf)
            0 state.bufSizeBytes

/-- The window of a whole buffer that an encryption has filled. -/
theorem window_encryption
    (fillsDestination : encBuffer.FillsDestination)
    (contents : Nat → Cell)
    (aes : Aes)
    (source : List Cell) :
    CellMemory.window
      (CellMemory.store contents 0 (encBuffer aes source).written)
      0 source.length = (encBuffer aes source).written := by
  rw [← fillsDestination aes source]
  exact CellMemory.window_store contents 0 _

/-- Every pass of the loop is free of races. -/
theorem ChunkState.Setup.raceFree
    {config : Cnf}
    {state : ChunkState Aes}
    (setup : state.Setup config)
    (env : Environment)
    (fillsDestination : encBuffer.FillsDestination) :
    state.RaceFree env encBuffer where
  covered := by
    intro index below
    rw [setup.arrays.size] at below
    have chunkPositive : 0 < state.config.chunkSize :=
      Nat.pos_of_mul_pos_right (Nat.zero_lt_of_lt below)
    refine ⟨index / state.config.chunkSize,
      Nat.div_lt_of_lt_mul below, Nat.div_mul_le_self _ _, ?_⟩
    rw [Nat.succ_mul]
    exact Nat.lt_div_mul_add chunkPositive
  inside := by
    intro i small
    rw [setup.arrays.size, Nat.mul_comm state.config.chunkSize]
    exact Nat.mul_le_mul_right _ small
  disjoint := by
    intro i j less
    exact Nat.mul_le_mul_right _ less
  apart := setup.arrays.separate
  fillWrites := by
    intro region i query offset outside
    simp only [fillBody]
    by_cases current : query = state.genCurrent
    · subst query
      rw [Memory.set_same]
      apply (sliceFill_sound env state i region.position).applyTo_outside
      rw [Nat.succ_mul i] at outside
      have bounds := outside.resolve_left (not_not.mpr rfl)
      omega
    · rw [Memory.set_other _ current]
  encryptWrites := by
    intro region query offset outside
    simp only [encryptBody]
    by_cases buffer : query = .buf
    · subst query
      rw [Memory.set_same]
      apply CellMemory.store_above
      rw [fillsDestination, CellMemory.window_length]
      have above := outside.resolve_left (not_not.mpr rfl)
      omega
    · rw [Memory.set_other _ buffer]
  encryptReads := by
    intro region other sameAes sameSource
    have length :
        state.bufSizeBytes =
          (CellMemory.window (other.memory state.genPrevious)
            0 state.bufSizeBytes).length := by
      simp
    simp only [encryptBody, sameAes, sameSource, Memory.set_same,
      true_and]
    generalize CellMemory.window (other.memory state.genPrevious)
      0 state.bufSizeBytes = source at length
    rw [length, window_encryption fillsDestination,
      window_encryption fillsDestination]

end RaceFree

section Flow

variable
  {Aes : Type}
  {env : Environment}
  {encBuffer : EncBuffer Aes}

/-- The state that a pass without an underflow leads to. -/
def ChunkState.passed
    (env : Environment)
    (encBuffer : EncBuffer Aes)
    (state : ChunkState Aes) : ChunkState Aes :=
  (state.filled env encBuffer).finished env

/-- What a pass without an underflow adds to the trace. -/
theorem passed_trace
    {state : ChunkState Aes}
    (arrays : state.Arrays) :
    (state.passed env encBuffer).trace =
      (state.trace ++
        if state.encrypts then
          [.encrypted state.encryptionSource
            (state.encryption encBuffer).written]
        else
          []) ++
        (state.filled env encBuffer).generatedEvents ++
        (state.filled env encBuffer).outputEvents env := by
  rw [ChunkState.passed, finished_trace, ← parallelFor_trace arrays]
  rfl

/-- The buffer that a generating pass has filled. -/
def ChunkState.generatedBuffer
    (env : Environment)
    (encBuffer : EncBuffer Aes)
    (state : ChunkState Aes) : List Cell :=
  CellMemory.window
    ((parallelFor env encBuffer state).memory state.genCurrent)
    0 (8 * state.bufSize)

theorem passed_generatedBuffers
    {state : ChunkState Aes}
    (arrays : state.Arrays) :
    generatedBuffers (state.passed env encBuffer).trace =
      generatedBuffers state.trace ++
        if state.generates then
          [state.generatedBuffer env encBuffer]
        else
          [] := by
  have sameGenerates :
      (state.filled env encBuffer).generates = state.generates := rfl
  rw [passed_trace arrays, ChunkState.generatedEvents,
    ChunkState.outputEvents, sameGenerates]
  unfold generatedBuffers
  cases state.encrypts <;> cases state.generates <;>
    cases (state.filled env encBuffer).skipsWrite <;>
    simp [Event.generatedBuffer, ChunkState.generatedBuffer,
      List.filterMap_cons,
      ChunkState.filled, ChunkState.afterRegion]

theorem passed_encryptedSources
    {state : ChunkState Aes}
    (arrays : state.Arrays) :
    encryptedSources (state.passed env encBuffer).trace =
      encryptedSources state.trace ++
        if state.encrypts then
          [state.encryptionSource]
        else
          [] := by
  rw [passed_trace arrays, ChunkState.generatedEvents,
    ChunkState.outputEvents]
  unfold encryptedSources
  cases state.encrypts <;>
    cases (state.filled env encBuffer).generates <;>
    cases (state.filled env encBuffer).skipsWrite <;>
    simp [Event.encryptedSource, List.filterMap_cons]

/-- What a pass adds to the written buffers under complete writes. -/
theorem passed_writtenBuffers
    (writesAll : env.WritesAll)
    {state : ChunkState Aes}
    (arrays : state.Arrays) :
    writtenBuffers (state.passed env encBuffer).trace =
      writtenBuffers state.trace ++
        if state.skipsWrite then
          []
        else
          [CellMemory.window
            ((parallelFor env encBuffer state).memory .buf)
            0 (8 * state.bufSize)] := by
  have sameSkips :
      (state.filled env encBuffer).skipsWrite = state.skipsWrite := rfl
  have whole :
      ∀ contents : Nat → Cell,
        (CellMemory.window contents 0 (8 * state.bufSize)).take
          (8 * env.accepts state.writes state.bufSize) =
        CellMemory.window contents 0 (8 * state.bufSize) := by
    intro contents
    rw [writesAll]
    exact List.take_of_length_le (by simp)
  rw [passed_trace arrays, ChunkState.generatedEvents,
    ChunkState.outputEvents, sameSkips]
  unfold writtenBuffers
  cases state.encrypts <;>
    cases (state.filled env encBuffer).generates <;>
    cases state.skipsWrite <;>
    simp [Event.writtenBuffer, List.filterMap_cons, ChunkState.filled,
      ChunkState.afterRegion, whole]

/-- Without AES the written buffer is the generated one. -/
theorem passed_plain
    (writesAll : env.WritesAll)
    {state : ChunkState Aes}
    (arrays : state.Arrays)
    (plain : state.config.aesFlag = false)
    (generates : state.generates = true)
    (before :
      writtenBuffers state.trace = generatedBuffers state.trace) :
    writtenBuffers (state.passed env encBuffer).trace =
      generatedBuffers (state.passed env encBuffer).trace := by
  rw [passed_writtenBuffers writesAll arrays,
    passed_generatedBuffers arrays, if_pos generates,
    if_neg (by simp [ChunkState.skipsWrite, plain]), before,
    ChunkState.generatedBuffer, arrays.plain plain]

/-- What an encrypting pass encrypts and writes. -/
theorem passed_encrypts
    (writesAll : env.WritesAll)
    (fillsDestination : encBuffer.FillsDestination)
    {state : ChunkState Aes}
    (arrays : state.Arrays)
    (size : state.bufSizeBytes = 8 * state.bufSize)
    (encrypts : state.encrypts = true) :
    encryptedSources (state.passed env encBuffer).trace =
        encryptedSources state.trace ++ [state.encryptionSource] ∧
      writtenBuffers (state.passed env encBuffer).trace =
        writtenBuffers state.trace ++
          [(state.encryption encBuffer).written] ∧
      (state.passed env encBuffer).aes =
        (state.encryption encBuffer).aes := by
  have encrypted :=
    parallelFor_encrypted env encBuffer arrays encrypts
  have writes : state.skipsWrite = false := by
    have flags := encrypts
    simp only [ChunkState.encrypts, Bool.and_eq_true,
      Bool.not_eq_true'] at flags
    simp [ChunkState.skipsWrite, flags]
  have length : state.encryptionSource.length = 8 * state.bufSize := by
    rw [ChunkState.encryptionSource, CellMemory.window_length, size]
  refine ⟨?_, ?_, ?_⟩
  · rw [passed_encryptedSources arrays, if_pos encrypts]
  · rw [passed_writtenBuffers writesAll arrays,
      if_neg (by simp [writes]), encrypted.buf, ← length,
      ChunkState.encryption, window_encryption fillsDestination]
  · rw [ChunkState.passed, finished_aes]
    exact encrypted.aes

/-- While no thread is lowered the buffer keeps its size in bytes. -/
theorem ChunkState.Steady.size
    {config : Cnf}
    {passes : Nat}
    {state : ChunkState Aes}
    (steady : state.Steady config passes) :
    state.bufSizeBytes = 8 * state.bufSize := by
  have setup := steady.setup
  rw [setup.bufSizeBytes, setup.arrays.size, setup.request.chunkSize,
    steady.threads, Cnf.roundBytes]

/--
The pipeline while every pass generates: the last buffer generated waits in
`gen_previous`, and those before it are encrypted and written.
-/
structure ChunkState.Flow
    (config : Cnf)
    (encBuffer : EncBuffer Aes)
    (aes : Aes)
    (passes : Nat)
    (state : ChunkState Aes) : Prop where
  steady : state.Steady config passes
  generated : (generatedBuffers state.trace).length = passes
  bounded :
    0 < config.bytes →
    config.chunkCount < uintModulus →
    passes ≤ config.chunkCount
  plain :
    config.aesFlag = false →
    writtenBuffers state.trace = generatedBuffers state.trace
  encrypted :
    config.aesFlag = true →
    encryptedSources state.trace =
      (generatedBuffers state.trace).take (passes - 1)
  written :
    config.aesFlag = true →
    writtenBuffers state.trace =
      (encryptAll encBuffer aes
        ((generatedBuffers state.trace).take (passes - 1))).1
  aes :
    config.aesFlag = true →
    state.aes =
      (encryptAll encBuffer aes
        ((generatedBuffers state.trace).take (passes - 1))).2
  previous :
    config.aesFlag = true →
    ∀ buffer,
      (generatedBuffers state.trace).getLast? = some buffer →
      state.encryptionSource = buffer

/-- The pipeline after the pass that drains it. -/
structure ChunkState.Drained
    (config : Cnf)
    (encBuffer : EncBuffer Aes)
    (aes : Aes)
    (passes : Nat)
    (state : ChunkState Aes) : Prop where
  steady : state.Steady config passes
  last : passes = config.chunkCount + 1
  finite : 0 < config.bytes
  flag : config.aesFlag = true
  countable : config.chunkCount < uintModulus
  generated :
    (generatedBuffers state.trace).length = config.chunkCount
  encrypted :
    encryptedSources state.trace = generatedBuffers state.trace
  written :
    writtenBuffers state.trace =
      (encryptAll encBuffer aes (generatedBuffers state.trace)).1

theorem chunkStart_flow
    (config : Cnf)
    (aes : Aes) :
    (chunkStart env config aes).Flow config encBuffer aes 0 where
  steady := chunkStart_steady config aes
  generated := rfl
  bounded := fun _ _ => Nat.zero_le _
  plain := fun _ => rfl
  encrypted := fun _ => rfl
  written := fun _ => rfl
  aes := fun _ => rfl
  previous := by
    intro _ buffer last
    cases last

/-- With AES a pass encrypts and writes the last buffer that was generated. -/
theorem ChunkState.Flow.encrypts
    (writesAll : env.WritesAll)
    (fillsDestination : encBuffer.FillsDestination)
    {config : Cnf}
    {aes : Aes}
    {passes : Nat}
    {state : ChunkState Aes}
    (flow : state.Flow config encBuffer aes passes)
    (flag : config.aesFlag = true) :
    encryptedSources (state.passed env encBuffer).trace =
        generatedBuffers state.trace ∧
      writtenBuffers (state.passed env encBuffer).trace =
        (encryptAll encBuffer aes (generatedBuffers state.trace)).1 ∧
      (state.passed env encBuffer).aes =
        (encryptAll encBuffer aes (generatedBuffers state.trace)).2 := by
  have setup := flow.steady.setup
  have stateFlag : state.config.aesFlag = true := by
    rw [setup.request.aesFlag, flag]
  have first := flow.steady.firstRun
  have encrypted := flow.encrypted flag
  have written := flow.written flag
  have aesBefore := flow.aes flag
  rcases List.eq_nil_or_concat (generatedBuffers state.trace) with
    none | ⟨init, last, some⟩
  · have start : passes = 0 := by
      rw [← flow.generated, none]
      rfl
    have quiet : state.encrypts = false := by
      simp [ChunkState.encrypts, first, start]
    have skips : state.skipsWrite = true := by
      simp [ChunkState.skipsWrite, stateFlag, first, start]
    rw [none, List.take_nil] at encrypted written aesBefore
    rw [none]
    refine ⟨?_, ?_, ?_⟩
    · rw [passed_encryptedSources setup.arrays, if_neg (by simp [quiet]),
        encrypted, List.append_nil]
    · rw [passed_writtenBuffers writesAll setup.arrays, if_pos skips,
        written, List.append_nil]
    · rw [ChunkState.passed, finished_aes, ← aesBefore]
      exact (parallelFor_sameBesides env encBuffer quiet).aes
  · rw [List.concat_eq_append] at some
    have count : passes - 1 = init.length := by
      rw [← flow.generated, some]
      simp
    have later : passes ≠ 0 := by
      rw [← flow.generated, some]
      simp
    have encrypting : state.encrypts = true := by
      simp [ChunkState.encrypts, stateFlag, first, flag, later]
    have source := flow.previous flag last (by simp [some])
    rw [some, count, List.take_left] at encrypted written aesBefore
    obtain ⟨sources, buffers, state'⟩ :=
      passed_encrypts writesAll fillsDestination setup.arrays
        flow.steady.size encrypting
    rw [some, encryptAll_snoc, ← aesBefore, ← source]
    refine ⟨?_, ?_, ?_⟩
    · rw [sources, encrypted]
    · rw [buffers, written]
      rfl
    · rw [state']
      rfl

/-- A generating pass keeps the pipeline flowing. -/
theorem ChunkState.Flow.generating
    (writesAll : env.WritesAll)
    (fillsDestination : encBuffer.FillsDestination)
    {config : Cnf}
    {aes : Aes}
    {passes : Nat}
    {state : ChunkState Aes}
    (flow : state.Flow config encBuffer aes passes)
    (recovered : ¬ Underflows env encBuffer state)
    (generates : state.generates = true) :
    (state.passed env encBuffer).Flow config encBuffer aes
      (passes + 1) := by
  have setup := flow.steady.setup
  have buffers :
      generatedBuffers (state.passed env encBuffer).trace =
        generatedBuffers state.trace ++
          [state.generatedBuffer env encBuffer] := by
    rw [passed_generatedBuffers setup.arrays, if_pos generates]
  have earlier :
      (generatedBuffers (state.passed env encBuffer).trace).take
        (passes + 1 - 1) = generatedBuffers state.trace := by
    rw [buffers, Nat.add_sub_cancel, ← flow.generated, List.take_left]
  refine
    ⟨chunkPass_steady writesAll recovered flow.steady,
      ?_, ?_, ?_, ?_, ?_, ?_, ?_⟩
  · rw [buffers, List.length_append, flow.generated]
    rfl
  · intro finite countable
    have within := flow.bounded finite countable
    have noLimit : state.config.bytes ≠ 0 := by
      rw [setup.request.bytes]
      omega
    have wanted := generates
    simp only [ChunkState.generates, noLimit, decide_false, Bool.or_false,
      decide_eq_true_eq, flow.steady.n, setup.request.chunkCount]
      at wanted
    rw [Nat.mod_eq_of_lt (by omega)] at wanted
    exact wanted
  · intro plain
    exact passed_plain writesAll setup.arrays
      (by rw [setup.request.aesFlag, plain]) generates (flow.plain plain)
  · intro flag
    rw [earlier]
    exact (flow.encrypts writesAll fillsDestination flag).1
  · intro flag
    rw [earlier]
    exact (flow.encrypts writesAll fillsDestination flag).2.1
  · intro flag
    rw [earlier]
    exact (flow.encrypts writesAll fillsDestination flag).2.2
  · intro flag buffer last
    rw [buffers, List.getLast?_append] at last
    cases last
    have stateFlag : state.config.aesFlag = true := by
      rw [setup.request.aesFlag, flag]
    have previous :
        (state.passed env encBuffer).genPrevious = state.genCurrent := by
      rw [ChunkState.passed, finished_genPrevious]
      exact if_pos stateFlag
    rw [ChunkState.encryptionSource, previous, ChunkState.passed,
      finished_memory, finished_bufSizeBytes,
      ChunkState.generatedBuffer, ← flow.steady.size]
    rfl

/-- A pass that generates nothing drains the pipeline. -/
theorem ChunkState.Flow.draining
    (writesAll : env.WritesAll)
    (fillsDestination : encBuffer.FillsDestination)
    {config : Cnf}
    {aes : Aes}
    {passes : Nat}
    {state : ChunkState Aes}
    (flow : state.Flow config encBuffer aes passes)
    (recovered : ¬ Underflows env encBuffer state)
    (guarded : state.guard = true)
    (drains : state.generates = false) :
    (state.passed env encBuffer).Drained config encBuffer aes
      (passes + 1) := by
  have setup := flow.steady.setup
  have exhausted := drains
  simp only [ChunkState.generates, Bool.or_eq_false_iff,
    decide_eq_false_iff_not, setup.request.chunkCount,
    setup.request.bytes, flow.steady.n] at exhausted
  have finite : 0 < config.bytes := Nat.pos_of_ne_zero exhausted.2
  have counterSmall := Nat.mod_lt passes (show 0 < uintModulus by decide)
  have flag : config.aesFlag = true := by
    by_contra plain
    have statePlain : state.config.aesFlag = false := by
      rw [setup.request.aesFlag]
      simpa using plain
    rw [generates_of_guard statePlain guarded] at drains
    cases drains
  have within := flow.bounded finite (by omega)
  have last : passes = config.chunkCount := by
    rw [Nat.mod_eq_of_lt (by omega)] at exhausted
    omega
  have buffers :
      generatedBuffers (state.passed env encBuffer).trace =
        generatedBuffers state.trace := by
    rw [passed_generatedBuffers setup.arrays, if_neg (by simp [drains]),
      List.append_nil]
  obtain ⟨sources, written, _⟩ :=
    flow.encrypts writesAll fillsDestination flag
  exact
    { steady := chunkPass_steady writesAll recovered flow.steady
      last := by omega
      finite := finite
      flag := flag
      countable := by omega
      generated := by rw [buffers, flow.generated, last]
      encrypted := by rw [buffers, sources]
      written := by rw [buffers, written] }

/--
The output after so many passes: every generated buffer is written as it is,
or, with AES, every buffer but the last is encrypted once, in order, and
written.
-/
structure Pipelined
    (config : Cnf)
    (encBuffer : EncBuffer Aes)
    (aes : Aes)
    (passes : Nat)
    (trace : List (Event Aes)) : Prop where
  atMost : (generatedBuffers trace).length ≤ passes
  atLeast :
    passes ≤ (generatedBuffers trace).length + config.aesThread
  plain :
    config.aesFlag = false →
    outputCells trace = (generatedBuffers trace).flatten
  encrypted :
    config.aesFlag = true →
    encryptedSources trace = (generatedBuffers trace).take (passes - 1)
  written :
    config.aesFlag = true →
    outputCells trace =
      (encryptAll encBuffer aes
        ((generatedBuffers trace).take (passes - 1))).1.flatten

theorem ChunkState.Flow.pipelined
    {config : Cnf}
    {aes : Aes}
    {passes : Nat}
    {state : ChunkState Aes}
    (flow : state.Flow config encBuffer aes passes) :
    Pipelined config encBuffer aes passes state.trace where
  atMost := Nat.le_of_eq flow.generated
  atLeast := by
    rw [flow.generated]
    exact Nat.le_add_right _ _
  plain := by
    intro plain
    rw [outputCells_eq_flatten, flow.plain plain]
  encrypted := flow.encrypted
  written := by
    intro flag
    rw [outputCells_eq_flatten, flow.written flag]

theorem ChunkState.Drained.pipelined
    {config : Cnf}
    {aes : Aes}
    {passes : Nat}
    {state : ChunkState Aes}
    (drained : state.Drained config encBuffer aes passes) :
    Pipelined config encBuffer aes passes state.trace := by
  have all :
      (generatedBuffers state.trace).take (passes - 1) =
        generatedBuffers state.trace := by
    rw [drained.last, Nat.add_sub_cancel, ← drained.generated,
      List.take_length]
  refine ⟨?_, ?_, ?_, ?_, ?_⟩
  · rw [drained.generated, drained.last]
    exact Nat.le_succ _
  · rw [drained.generated, drained.last, Cnf.aesThread,
      if_pos drained.flag]
  · intro plain
    rw [drained.flag] at plain
    cases plain
  · intro _
    rw [all, drained.encrypted]
  · intro _
    rw [all, outputCells_eq_flatten, drained.written]

/-- Every encryption adds one buffer. -/
theorem encryptAll_length
    (encBuffer : EncBuffer Aes)
    (aes : Aes)
    (sources : List (List Cell)) :
    (encryptAll encBuffer aes sources).1.length = sources.length := by
  induction sources generalizing aes with
  | nil =>
      rfl
  | cons source rest inductionHypothesis =>
      simp [encryptAll, inductionHypothesis]

/-- The counter of passes can be told apart from its bound. -/
def Cnf.CounterFits (config : Cnf) : Prop :=
  ¬ (config.aesFlag = true ∧
    0 < config.bytes ∧
    config.chunkCount = uintModulus - 1)

/-- A drained loop ends, if the counter has not wrapped around. -/
theorem ChunkState.Drained.unguarded
    {config : Cnf}
    (counterFits : config.CounterFits)
    (passesFit :
      config.chunkCount + config.aesThread < sizeModulus)
    {aes : Aes}
    {passes : Nat}
    {state : ChunkState Aes}
    (drained : state.Drained config encBuffer aes passes) :
    state.guard = false := by
  have below : config.chunkCount + 1 < uintModulus := by
    have differs : config.chunkCount ≠ uintModulus - 1 :=
      fun same => counterFits ⟨drained.flag, drained.finite, same⟩
    have countable := drained.countable
    omega
  rw [← Bool.not_eq_true,
    drained.steady.setup.guard_iff drained.finite passesFit,
    drained.steady.n, drained.last, Nat.mod_eq_of_lt below,
    Cnf.aesThread, if_pos drained.flag]
  exact Nat.lt_irrefl _

/-- Every slice of every pass of a run is filled. -/
def RunComplete
    (env : Environment)
    (encBuffer : EncBuffer Aes)
    (config : Cnf)
    (aes : Aes) : Prop :=
  ∀ passes state,
    generateChunk env encBuffer config aes passes = .running state →
    state.guard = true →
    state.generates = true →
    SlicesComplete env encBuffer state

/-- A device that never fails fills every slice. -/
theorem runComplete_of_neverFails
    (neverFails : env.device.NeverFails)
    {config : Cnf}
    (split : config.Split)
    (realMethod : config.method ≠ .methodsCount)
    (aes : Aes) :
    RunComplete env encBuffer config aes := by
  intro passes state running _ _
  have setup := chunkLoop_setup running
  apply slicesComplete_of_neverFails neverFails
  · rw [setup.request.method]
    exact realMethod
  · rw [setup.request.chunkSize]
    exact split.chunkBounded

/-- The pass of a complete run. -/
theorem RunComplete.pass
    (writesAll : env.WritesAll)
    {config : Cnf}
    {aes : Aes}
    (complete : RunComplete env encBuffer config aes)
    {passes : Nat}
    {state : ChunkState Aes}
    (running :
      generateChunk env encBuffer config aes passes = .running state)
    (guarded : state.guard = true) :
    ¬ Underflows env encBuffer state ∧
      chunkPass env encBuffer state =
        .again (state.passed env encBuffer) := by
  have recovered : ¬ Underflows env encBuffer state :=
    not_underflows (chunkLoop_setup running).arrays
      (complete passes state running guarded)
  exact ⟨recovered, chunkPass_proceeds writesAll recovered⟩

/-- In a complete run the pipeline flows until it is drained. -/
theorem generateChunk_flow
    (writesAll : env.WritesAll)
    (fillsDestination : encBuffer.FillsDestination)
    {config : Cnf}
    (counterFits : config.CounterFits)
    (passesFit :
      config.chunkCount + config.aesThread < sizeModulus)
    {aes : Aes}
    (complete : RunComplete env encBuffer config aes)
    {passes : Nat}
    {state : ChunkState Aes}
    (running :
      generateChunk env encBuffer config aes passes = .running state) :
    state.Flow config encBuffer aes passes ∨
      state.Drained config encBuffer aes passes := by
  refine Loop.running_invariant
    (fun count reached =>
      reached.Flow config encBuffer aes count ∨
        reached.Drained config encBuffer aes count)
    (.inl (chunkStart_flow config aes)) ?_ running
  intro count before after run guarded pass kept
  obtain ⟨recovered, proceeds⟩ := complete.pass writesAll run guarded
  have next : after = before.passed env encBuffer := by
    change chunkPass env encBuffer before = .again after at pass
    rw [proceeds] at pass
    cases pass
    rfl
  subst next
  rcases kept with flow | drained
  · cases generates : before.generates with
    | true =>
        exact .inl
          (flow.generating writesAll fillsDestination recovered generates)
    | false =>
        exact .inr
          (flow.draining writesAll fillsDestination recovered guarded
            generates)
  · have unguarded := drained.unguarded counterFits passesFit
    change before.guard = true at guarded
    rw [unguarded] at guarded
    cases guarded

/-- A finite loop that ends has written every buffer. -/
theorem flow_finished
    {config : Cnf}
    (passesFit :
      config.chunkCount + config.aesThread < sizeModulus)
    (counterFits : config.CounterFits)
    (finite : 0 < config.bytes)
    {aes : Aes}
    {passes : Nat}
    {state : ChunkState Aes}
    (unguarded : state.guard = false)
    (kept :
      state.Flow config encBuffer aes passes ∨
        state.Drained config encBuffer aes passes) :
    (writtenBuffers state.trace).length = config.chunkCount := by
  rcases kept with flow | drained
  · rw [← Bool.not_eq_true,
      flow.steady.setup.guard_iff finite passesFit, flow.steady.n]
      at unguarded
    have counterSmall :=
      Nat.mod_lt passes (show 0 < uintModulus by decide)
    have within := flow.bounded finite (by omega)
    cases flag : config.aesFlag with
    | false =>
        rw [flow.plain flag, flow.generated]
        rw [Nat.mod_eq_of_lt (by omega)] at unguarded
        omega
    | true =>
        have differs : config.chunkCount ≠ uintModulus - 1 :=
          fun same => counterFits ⟨flag, finite, same⟩
        simp only [Cnf.aesThread, flag, if_true] at unguarded
        rw [Nat.mod_eq_of_lt (by omega)] at unguarded
        omega
  · rw [drained.written, encryptAll_length, drained.generated]

/--
For every order of the parallel bodies and every encryption that fills its
destination, with every slice filled and every write complete, the passes are
free of races and make up a pipeline, and a finite loop that ends has written
`chunk_count` buffers, unless the counter wraps around before the loop ends.
-/
theorem generateChunk_pipeline
    {config : Cnf}
    (counterFits : config.CounterFits)
    (passesFit :
      config.chunkCount + config.aesThread < sizeModulus)
    (writesAll : env.WritesAll)
    (fillsDestination : encBuffer.FillsDestination)
    (aes : Aes)
    (complete : RunComplete env encBuffer config aes) :
    (∀ passes state,
      generateChunk env encBuffer config aes passes = .running state →
      state.RaceFree env encBuffer ∧
        Pipelined config encBuffer aes passes state.trace) ∧
    (∀ passes state,
      generateChunk env encBuffer config aes passes = .finished state →
      0 < config.bytes →
      (writtenBuffers state.trace).length = config.chunkCount) := by
  constructor
  · intro passes state running
    refine ⟨(chunkLoop_setup running).raceFree env fillsDestination, ?_⟩
    rcases generateChunk_flow writesAll fillsDestination counterFits
        passesFit complete running with flow | drained
    · exact flow.pipelined
    · exact drained.pipelined
  · intro passes state finished finite
    obtain ⟨count, _, running, unguarded⟩ :=
      Loop.finished_reached finished
    exact flow_finished passesFit counterFits finite unguarded
      (generateChunk_flow writesAll fillsDestination counterFits
        passesFit complete running)

end Flow

theorem plainCopy_fillsDestination : plainCopy.FillsDestination :=
  fun _ _ => rfl

/--
Three rounds of two threads and an ending, with AES and without failures: the
pipeline swaps its buffers, and drains after the third round.
-/
theorem generateChunk_pipeline_counting :
    ∃ config,
      parseArgs LibC.decimal false
          [.amount "100000", .threads "2", .aesCtr]
          defaultConfigSetting =
        (.success, config) ∧
      config.chunkCount = 3 ∧
      (∀ passes state,
        generateChunk (.inOrder .counting) plainCopy config () passes =
            .running state →
        state.RaceFree (.inOrder .counting) plainCopy ∧
          Pipelined config plainCopy () passes state.trace) ∧
      (∀ passes state,
        generateChunk (.inOrder .counting) plainCopy config () passes =
            .finished state →
        0 < config.bytes →
        (writtenBuffers state.trace).length = config.chunkCount) := by
  have parsed :
      parseArgs LibC.decimal false
          [.amount "100000", .threads "2", .aesCtr]
          defaultConfigSetting =
        (.success,
          (parseArgs LibC.decimal false
            [.amount "100000", .threads "2", .aesCtr]
            defaultConfigSetting).2) := by
    decide
  obtain ⟨split, realMethod⟩ := parseArgs_split parsed
  refine ⟨_, parsed, by decide, ?_⟩
  refine
    generateChunk_pipeline (by unfold Cnf.CounterFits; decide)
      split.passes_lt (fun _ _ => rfl) plainCopy_fillsDestination () ?_
  exact runComplete_of_neverFails Device.counting_neverFails split
    realMethod ()

end RdRand
