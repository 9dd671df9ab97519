import RdRand.ParallelRegion

namespace RdRand

/-!
# Passes of the chunk loop

`chunkPass_cases` says once what a pass can do: run the iteration again with
one thread fewer, take the slow path of a single thread, or finish.  The
invariants of the loop are derived from it.
-/

open ControlLoop

section Passes

variable
  {Aes : Type}
  {env : Environment}
  {encBuffer : EncBuffer Aes}

/-- The slow refill of a pass, from the words its one slice has. -/
def ChunkState.slowFill
    (env : Environment)
    (state : ChunkState Aes)
    (written : Nat) : SlowFill :=
  slowRefill env state slowRetryLimitCycles
    { written := written
      contents := state.memory state.genCurrent
      position := state.position }

/-- The state after a slow refill, with its warning printed. -/
def ChunkState.refilled
    (state : ChunkState Aes)
    (slow : SlowFill) : ChunkState Aes :=
  { state with
    config :=
      { state.config with
        printedWarningFlag :=
          if state.config.printedWarningFlag = 0 then
            1
          else
            state.config.printedWarningFlag }
    memory := state.memory.set state.genCurrent slow.contents
    position := slow.position }

theorem slowPath_eq
    (state : ChunkState Aes)
    (written : Nat) :
    slowPath env state written =
      if (state.slowFill env written).written ≠ state.bufSize then
        .leave .hardwareProblem
          (state.refilled (state.slowFill env written))
      else
        finishPass env (state.refilled (state.slowFill env written)) :=
  rfl

/-- The state of a pass once its parallel region is over. -/
def ChunkState.filled
    (env : Environment)
    (encBuffer : EncBuffer Aes)
    (state : ChunkState Aes) : ChunkState Aes :=
  state.afterRegion (parallelFor env encBuffer state)

/-- The slow refill that a pass makes when its one slice comes short. -/
def ChunkState.slow
    (env : Environment)
    (encBuffer : EncBuffer Aes)
    (state : ChunkState Aes) : SlowFill :=
  (state.filled env encBuffer).slowFill env
    (parallelFor env encBuffer state).written

/-- A pass that counts fewer words than wanted. -/
structure Underflows
    (env : Environment)
    (encBuffer : EncBuffer Aes)
    (state : ChunkState Aes) : Prop where
  short : (parallelFor env encBuffer state).written ≠ state.bufSize
  wanted : state.n < state.config.chunkCount

/-- The states in which a pass takes its buffer as filled. -/
inductive Finishing
    (env : Environment)
    (encBuffer : EncBuffer Aes)
    (state : ChunkState Aes) : ChunkState Aes → Prop where
  | region
      (recovered : ¬ Underflows env encBuffer state) :
      Finishing env encBuffer state (state.filled env encBuffer)
  | refill
      (underflows : Underflows env encBuffer state)
      (oneThread : state.config.threads = 1)
      (whole : (state.slow env encBuffer).written = state.bufSize) :
      Finishing env encBuffer state
        ((state.filled env encBuffer).refilled
          (state.slow env encBuffer))

/-- What one pass over the chunk loop does. -/
inductive PassCase
    (env : Environment)
    (encBuffer : EncBuffer Aes)
    (state : ChunkState Aes) : Prop where
  | rerun
      (underflows : Underflows env encBuffer state)
      (threads : state.config.threads ≠ 1)
      (pass :
        chunkPass env encBuffer state =
          .again (state.filled env encBuffer).lowerThreads)
  | giveUp
      (underflows : Underflows env encBuffer state)
      (oneThread : state.config.threads = 1)
      (short : (state.slow env encBuffer).written ≠ state.bufSize)
      (pass :
        chunkPass env encBuffer state =
          .leave .hardwareProblem
            ((state.filled env encBuffer).refilled
              (state.slow env encBuffer)))
  | finish
      (base : ChunkState Aes)
      (finishing : Finishing env encBuffer state base)
      (pass :
        chunkPass env encBuffer state = finishPass env base)

/-- Every pass is of one of the three kinds. -/
theorem chunkPass_cases
    (env : Environment)
    (encBuffer : EncBuffer Aes)
    (state : ChunkState Aes) :
    PassCase env encBuffer state := by
  by_cases underflows : Underflows env encBuffer state
  · have both := And.intro underflows.short underflows.wanted
    by_cases oneThread : state.config.threads = 1
    · have pass :
          chunkPass env encBuffer state =
            slowPath env (state.filled env encBuffer)
              (parallelFor env encBuffer state).written := by
        simp only [chunkPass]
        rw [if_pos both, if_pos oneThread]
        rfl
      rw [slowPath_eq] at pass
      by_cases whole :
          (state.slow env encBuffer).written = state.bufSize
      · refine .finish _ (.refill underflows oneThread whole) ?_
        rw [pass]
        exact if_neg (not_not.mpr whole)
      · refine .giveUp underflows oneThread whole ?_
        rw [pass]
        exact if_pos whole
    · refine .rerun underflows oneThread ?_
      simp only [chunkPass]
      rw [if_pos both, if_neg oneThread]
      rfl
  · refine .finish _ (.region underflows) ?_
    simp only [chunkPass]
    rw [if_neg (fun both => underflows ⟨both.1, both.2⟩)]
    rfl

/-- The fields of the configuration that a pass never changes. -/
structure Cnf.SameRequest (first second : Cnf) : Prop where
  method : second.method = first.method
  aesFlag : second.aesFlag = first.aesFlag
  bytes : second.bytes = first.bytes
  chunkSize : second.chunkSize = first.chunkSize
  chunkCount : second.chunkCount = first.chunkCount
  endingBytes : second.endingBytes = first.endingBytes

theorem Cnf.SameRequest.refl (config : Cnf) : config.SameRequest config :=
  ⟨rfl, rfl, rfl, rfl, rfl, rfl⟩

theorem Cnf.SameRequest.trans
    {first second third : Cnf}
    (left : first.SameRequest second)
    (right : second.SameRequest third) :
    first.SameRequest third where
  method := right.method.trans left.method
  aesFlag := right.aesFlag.trans left.aesFlag
  bytes := right.bytes.trans left.bytes
  chunkSize := right.chunkSize.trans left.chunkSize
  chunkCount := right.chunkCount.trans left.chunkCount
  endingBytes := right.endingBytes.trans left.endingBytes

/-- The variables that a pass leaves alone until its buffer is finished. -/
structure ChunkState.SameSetup
    (first second : ChunkState Aes) : Prop where
  request : first.config.SameRequest second.config
  threads : second.config.threads = first.config.threads
  n : second.n = first.n
  firstRun : second.firstRun = first.firstRun
  bufSize : second.bufSize = first.bufSize
  bufSizeBytes : second.bufSizeBytes = first.bufSizeBytes
  writtenTotal : second.writtenTotal = first.writtenTotal
  genCurrent : second.genCurrent = first.genCurrent
  genPrevious : second.genPrevious = first.genPrevious
  writes : second.writes = first.writes

/-- Up to its finish a pass keeps its variables. -/
theorem Finishing.sameSetup
    {state base : ChunkState Aes}
    (finishing : Finishing env encBuffer state base) :
    state.SameSetup base := by
  cases finishing with
  | region recovered =>
      exact
        ⟨.refl _, rfl, rfl, rfl, rfl, rfl, rfl, rfl, rfl, rfl⟩
  | refill underflows oneThread whole =>
      exact
        ⟨⟨rfl, rfl, rfl, rfl, rfl, rfl⟩,
          rfl, rfl, rfl, rfl, rfl, rfl, rfl, rfl, rfl⟩

/-- A finishing pass has the trace that its region leaves. -/
theorem Finishing.trace
    {state base : ChunkState Aes}
    (finishing : Finishing env encBuffer state base) :
    base.trace = (parallelFor env encBuffer state).trace := by
  cases finishing with
  | region recovered =>
      rfl
  | refill underflows oneThread whole =>
      rfl

/-- A finishing pass has the AES layer in the state its region leaves. -/
theorem Finishing.aes
    {state base : ChunkState Aes}
    (finishing : Finishing env encBuffer state base) :
    base.aes = (parallelFor env encBuffer state).aes := by
  cases finishing with
  | region recovered =>
      rfl
  | refill underflows oneThread whole =>
      rfl

/-- Other arrays than `gen_current` are those that the region leaves. -/
theorem Finishing.memory
    {state base : ChunkState Aes}
    (finishing : Finishing env encBuffer state base)
    {query : Buffer}
    (other : query ≠ state.genCurrent) :
    base.memory query =
      (parallelFor env encBuffer state).memory query := by
  cases finishing with
  | region recovered =>
      rfl
  | refill underflows oneThread whole =>
      exact Memory.set_other _ other _

/-- A pass that lowers no thread keeps the sizes and buffers in order. -/
theorem ChunkState.SameSetup.arrays
    {first second : ChunkState Aes}
    (same : first.SameSetup second)
    (arrays : first.Arrays) :
    second.Arrays where
  size := by
    rw [same.bufSize, same.request.chunkSize, same.threads, arrays.size]
  plain := by
    rw [same.request.aesFlag, same.genCurrent]
    exact arrays.plain
  separate := by
    rw [same.request.aesFlag, same.genCurrent, same.genPrevious]
    exact arrays.separate

/-- The state before writing: the pass is recorded and its buffers swapped. -/
def ChunkState.prepared (state : ChunkState Aes) : ChunkState Aes :=
  if state.config.aesFlag then
    state.recordGenerated.swap
  else
    state.recordGenerated

/-- The events that recording a pass adds. -/
def ChunkState.generatedEvents
    (state : ChunkState Aes) : List (Event Aes) :=
  if state.generates then
    [.generated
      (CellMemory.window (state.memory state.genCurrent)
        0 (8 * state.bufSize))]
  else
    []

@[simp] theorem prepared_config (state : ChunkState Aes) :
    state.prepared.config = state.config := by
  simp only [ChunkState.prepared, ChunkState.recordGenerated,
    ChunkState.swap]
  split <;> split <;> rfl

@[simp] theorem prepared_n (state : ChunkState Aes) :
    state.prepared.n = state.n := by
  simp only [ChunkState.prepared, ChunkState.recordGenerated,
    ChunkState.swap]
  split <;> split <;> rfl

@[simp] theorem prepared_firstRun (state : ChunkState Aes) :
    state.prepared.firstRun = state.firstRun := by
  simp only [ChunkState.prepared, ChunkState.recordGenerated,
    ChunkState.swap]
  split <;> split <;> rfl

@[simp] theorem prepared_bufSize (state : ChunkState Aes) :
    state.prepared.bufSize = state.bufSize := by
  simp only [ChunkState.prepared, ChunkState.recordGenerated,
    ChunkState.swap]
  split <;> split <;> rfl

@[simp] theorem prepared_bufSizeBytes (state : ChunkState Aes) :
    state.prepared.bufSizeBytes = state.bufSizeBytes := by
  simp only [ChunkState.prepared, ChunkState.recordGenerated,
    ChunkState.swap]
  split <;> split <;> rfl

@[simp] theorem prepared_memory (state : ChunkState Aes) :
    state.prepared.memory = state.memory := by
  simp only [ChunkState.prepared, ChunkState.recordGenerated,
    ChunkState.swap]
  split <;> split <;> rfl

@[simp] theorem prepared_position (state : ChunkState Aes) :
    state.prepared.position = state.position := by
  simp only [ChunkState.prepared, ChunkState.recordGenerated,
    ChunkState.swap]
  split <;> split <;> rfl

@[simp] theorem prepared_aes (state : ChunkState Aes) :
    state.prepared.aes = state.aes := by
  simp only [ChunkState.prepared, ChunkState.recordGenerated,
    ChunkState.swap]
  split <;> split <;> rfl

@[simp] theorem prepared_writes (state : ChunkState Aes) :
    state.prepared.writes = state.writes := by
  simp only [ChunkState.prepared, ChunkState.recordGenerated,
    ChunkState.swap]
  split <;> split <;> rfl

@[simp] theorem prepared_writtenTotal (state : ChunkState Aes) :
    state.prepared.writtenTotal = state.writtenTotal := by
  simp only [ChunkState.prepared, ChunkState.recordGenerated,
    ChunkState.swap]
  split <;> split <;> rfl

@[simp] theorem prepared_trace (state : ChunkState Aes) :
    state.prepared.trace = state.trace ++ state.generatedEvents := by
  simp only [ChunkState.prepared, ChunkState.recordGenerated,
    ChunkState.swap, ChunkState.generatedEvents]
  split <;> split <;> simp

theorem prepared_genCurrent (state : ChunkState Aes) :
    state.prepared.genCurrent =
      if state.config.aesFlag then
        state.genPrevious
      else
        state.genCurrent := by
  simp only [ChunkState.prepared, ChunkState.recordGenerated,
    ChunkState.swap]
  split <;> split <;> rfl

theorem prepared_genPrevious (state : ChunkState Aes) :
    state.prepared.genPrevious =
      if state.config.aesFlag then
        state.genCurrent
      else
        state.genPrevious := by
  simp only [ChunkState.prepared, ChunkState.recordGenerated,
    ChunkState.swap]
  split <;> split <;> rfl

/-- The first pass with AES has nothing to write yet. -/
def ChunkState.skipsWrite (state : ChunkState Aes) : Bool :=
  state.config.aesFlag && state.firstRun

/-- The end of a pass either skips its write or writes the prepared buffer. -/
theorem finishPass_eq (state : ChunkState Aes) :
    finishPass env state =
      if state.skipsWrite then
        .again
          { state.prepared with
            firstRun := false
            n := ChunkState.increment state.n }
      else
        writeBuffer env state.prepared := by
  cases encrypts : state.config.aesFlag with
  | false =>
      simp [finishPass, ChunkState.skipsWrite, ChunkState.prepared,
        encrypts]
  | true =>
      cases first : state.firstRun with
      | false =>
          simp [finishPass, ChunkState.skipsWrite,
            ChunkState.prepared, encrypts, first]
      | true =>
          simp [finishPass, ChunkState.skipsWrite,
            ChunkState.prepared, encrypts, first]

/-- The state after `fwrite` accepted some words of the output buffer. -/
def ChunkState.afterWrite
    (env : Environment)
    (state : ChunkState Aes) : ChunkState Aes :=
  { state with
    writtenTotal :=
      (state.writtenTotal + env.accepts state.writes state.bufSize) %
        sizeModulus
    writes := state.writes + 1
    trace :=
      state.trace ++
        [.output
          (CellMemory.window (state.memory .buf) 0 (8 * state.bufSize))
          (8 * env.accepts state.writes state.bufSize)
          state.position state.aes] }

theorem writeBuffer_eq (state : ChunkState Aes) :
    writeBuffer env state =
      if env.accepts state.writes state.bufSize ≠ state.bufSize then
        .leave .shortWrite (state.afterWrite env)
      else
        .again
          { state.afterWrite env with
            n := ChunkState.increment state.n } :=
  rfl

/-- The next state of a finished pass whose write, if any, is complete. -/
def ChunkState.finished
    (env : Environment)
    (state : ChunkState Aes) : ChunkState Aes :=
  if state.skipsWrite then
    { state.prepared with
      firstRun := false
      n := ChunkState.increment state.n }
  else
    { state.prepared.afterWrite env with
      n := ChunkState.increment state.n }

/-- The events that the write of a finished pass adds. -/
def ChunkState.outputEvents
    (env : Environment)
    (state : ChunkState Aes) : List (Event Aes) :=
  if state.skipsWrite then
    []
  else
    [.output
      (CellMemory.window (state.memory .buf) 0 (8 * state.bufSize))
      (8 * env.accepts state.writes state.bufSize)
      state.position state.aes]

@[simp] theorem finished_config (state : ChunkState Aes) :
    (state.finished env).config = state.config := by
  unfold ChunkState.finished
  split <;> simp [ChunkState.afterWrite]

@[simp] theorem finished_n (state : ChunkState Aes) :
    (state.finished env).n = ChunkState.increment state.n := by
  unfold ChunkState.finished
  split <;> rfl

@[simp] theorem finished_firstRun (state : ChunkState Aes) :
    (state.finished env).firstRun =
      (!state.config.aesFlag && state.firstRun) := by
  unfold ChunkState.finished ChunkState.skipsWrite
  cases state.config.aesFlag <;> cases first : state.firstRun <;>
    simp [ChunkState.afterWrite, first]

@[simp] theorem finished_bufSize (state : ChunkState Aes) :
    (state.finished env).bufSize = state.bufSize := by
  unfold ChunkState.finished
  split <;> simp [ChunkState.afterWrite]

@[simp] theorem finished_bufSizeBytes (state : ChunkState Aes) :
    (state.finished env).bufSizeBytes = state.bufSizeBytes := by
  unfold ChunkState.finished
  split <;> simp [ChunkState.afterWrite]

@[simp] theorem finished_memory (state : ChunkState Aes) :
    (state.finished env).memory = state.memory := by
  unfold ChunkState.finished
  split <;> simp [ChunkState.afterWrite]

@[simp] theorem finished_position (state : ChunkState Aes) :
    (state.finished env).position = state.position := by
  unfold ChunkState.finished
  split <;> simp [ChunkState.afterWrite]

@[simp] theorem finished_aes (state : ChunkState Aes) :
    (state.finished env).aes = state.aes := by
  unfold ChunkState.finished
  split <;> simp [ChunkState.afterWrite]

theorem finished_genCurrent (state : ChunkState Aes) :
    (state.finished env).genCurrent =
      if state.config.aesFlag then
        state.genPrevious
      else
        state.genCurrent := by
  rw [← prepared_genCurrent]
  unfold ChunkState.finished
  split <;> rfl

theorem finished_genPrevious (state : ChunkState Aes) :
    (state.finished env).genPrevious =
      if state.config.aesFlag then
        state.genCurrent
      else
        state.genPrevious := by
  rw [← prepared_genPrevious]
  unfold ChunkState.finished
  split <;> rfl

@[simp] theorem finished_trace (state : ChunkState Aes) :
    (state.finished env).trace =
      state.trace ++ state.generatedEvents ++ state.outputEvents env := by
  unfold ChunkState.finished ChunkState.outputEvents
  split <;> simp [ChunkState.afterWrite]

theorem finished_writtenTotal (state : ChunkState Aes) :
    (state.finished env).writtenTotal =
      if state.skipsWrite then
        state.writtenTotal
      else
        (state.writtenTotal + env.accepts state.writes state.bufSize) %
          sizeModulus := by
  unfold ChunkState.finished
  split <;> simp [ChunkState.afterWrite]

/-- The write of a finished pass is left out or complete. -/
def ChunkState.WritesWhole
    (env : Environment)
    (state : ChunkState Aes) : Prop :=
  state.skipsWrite = false →
    env.accepts state.writes state.bufSize = state.bufSize

/-- A finished pass goes on, or leaves the loop after a short write. -/
theorem finishPass_cases
    (env : Environment)
    (state : ChunkState Aes) :
    (state.WritesWhole env ∧
      finishPass env state = .again (state.finished env)) ∨
    (state.skipsWrite = false ∧
      env.accepts state.writes state.bufSize ≠ state.bufSize ∧
      finishPass env state =
        .leave .shortWrite (state.prepared.afterWrite env)) := by
  rw [finishPass_eq]
  unfold ChunkState.WritesWhole ChunkState.finished
  cases skips : state.skipsWrite with
  | true =>
      exact .inl ⟨by simp, by simp⟩
  | false =>
      by_cases whole :
          env.accepts state.writes state.bufSize = state.bufSize
      · exact .inl ⟨fun _ => whole, by simp [writeBuffer_eq, whole]⟩
      · exact .inr ⟨rfl, whole, by simp [writeBuffer_eq, whole]⟩

/-- How a pass that asks for another one gets to the next state. -/
inductive AgainCase
    (env : Environment)
    (encBuffer : EncBuffer Aes)
    (state next : ChunkState Aes) : Prop where
  | rerun
      (underflows : Underflows env encBuffer state)
      (threads : state.config.threads ≠ 1)
      (result : next = (state.filled env encBuffer).lowerThreads)
  | finish
      (base : ChunkState Aes)
      (finishing : Finishing env encBuffer state base)
      (writes : base.WritesWhole env)
      (result : next = base.finished env)

/-- How a pass that leaves the loop gets to the final state. -/
inductive LeaveCase
    (env : Environment)
    (encBuffer : EncBuffer Aes)
    (state : ChunkState Aes) :
    ChunkExit → ChunkState Aes → Prop where
  | hardwareProblem
      (underflows : Underflows env encBuffer state)
      (oneThread : state.config.threads = 1)
      (short : (state.slow env encBuffer).written ≠ state.bufSize) :
      LeaveCase env encBuffer state .hardwareProblem
        ((state.filled env encBuffer).refilled
          (state.slow env encBuffer))
  | shortWrite
      (base : ChunkState Aes)
      (finishing : Finishing env encBuffer state base)
      (writes : base.skipsWrite = false)
      (short : env.accepts base.writes base.bufSize ≠ base.bufSize) :
      LeaveCase env encBuffer state .shortWrite
        (base.prepared.afterWrite env)

theorem chunkPass_again
    {state next : ChunkState Aes}
    (pass : chunkPass env encBuffer state = .again next) :
    AgainCase env encBuffer state next := by
  cases chunkPass_cases env encBuffer state with
  | rerun underflows threads reruns =>
      rw [reruns] at pass
      cases pass
      exact .rerun underflows threads rfl
  | giveUp underflows oneThread short leaves =>
      rw [leaves] at pass
      cases pass
  | finish base finishing finishes =>
      rw [finishes] at pass
      rcases finishPass_cases env base with
        ⟨writes, result⟩ | ⟨writes, short, result⟩
      · rw [result] at pass
        cases pass
        exact .finish base finishing writes rfl
      · rw [result] at pass
        cases pass

theorem chunkPass_leave
    {state final : ChunkState Aes}
    {exit : ChunkExit}
    (pass : chunkPass env encBuffer state = .leave exit final) :
    LeaveCase env encBuffer state exit final := by
  cases chunkPass_cases env encBuffer state with
  | rerun underflows threads reruns =>
      rw [reruns] at pass
      cases pass
  | giveUp underflows oneThread short leaves =>
      rw [leaves] at pass
      cases pass
      exact .hardwareProblem underflows oneThread short
  | finish base finishing finishes =>
      rw [finishes] at pass
      rcases finishPass_cases env base with
        ⟨writes, result⟩ | ⟨writes, short, result⟩
      · rw [result] at pass
        cases pass
      · rw [result] at pass
        cases pass
        exact .shortWrite base finishing writes short

/-- The slow refill only moves on along the device. -/
theorem slowRefill_advances
    (state : ChunkState Aes)
    (cycles : Nat)
    (slow : SlowFill) :
    slow.position ≤ (slowRefill env state cycles slow).position := by
  induction cycles generalizing slow with
  | zero =>
      exact Nat.le_refl _
  | succ cycles inductionHypothesis =>
      unfold slowRefill
      split
      · exact Nat.le_refl _
      · have small :
            slowSize state.config slow.written < uintModulus :=
          Nat.mod_lt _ (by decide)
        have sound :=
          generateWithMetod_sound env.device state.config slow.written
            small slowRetryLimit slow.position
        have advances := sound.advances
        simp only
        generalize generateWithMetod env.device state.config slow.written
          (slowSize state.config slow.written) slowRetryLimit
          slow.position = fill at *
        exact Nat.le_trans advances
          (inductionHypothesis
            ⟨slow.written + fill.generated / 8,
              fill.applyTo slow.contents, fill.position⟩)

/-- The slow refill of a pass starts where its region has ended. -/
theorem slow_advances (state : ChunkState Aes) :
    (parallelFor env encBuffer state).position ≤
      (state.slow env encBuffer).position :=
  slowRefill_advances (state.filled env encBuffer)
    slowRetryLimitCycles
    ⟨(parallelFor env encBuffer state).written,
      (state.filled env encBuffer).memory state.genCurrent,
      (state.filled env encBuffer).position⟩

/-- Finishing a pass only moves on along the device. -/
theorem Finishing.position
    {state base : ChunkState Aes}
    (finishing : Finishing env encBuffer state base) :
    (parallelFor env encBuffer state).position ≤ base.position := by
  cases finishing with
  | region recovered =>
      exact Nat.le_refl _
  | refill underflows oneThread whole =>
      exact slow_advances state

end Passes

section Setup

variable
  {Aes : Type}
  {env : Environment}
  {encBuffer : EncBuffer Aes}

/-- What every pass keeps of the sizes, the buffers and the request. -/
structure ChunkState.Setup
    (config : Cnf)
    (state : ChunkState Aes) : Prop where
  arrays : state.Arrays
  request : config.SameRequest state.config
  threadsBounded : state.config.threads ≤ config.threads
  threadsPositive :
    1 ≤ config.threads → 1 ≤ state.config.threads
  nBounded : state.n < uintModulus
  bufSizeBytes : state.bufSizeBytes = config.roundBytes

theorem increment_lt (n : Nat) :
    ChunkState.increment n < uintModulus :=
  Nat.mod_lt _ (by decide)

/-- `n--; n++` restores `n`. -/
theorem increment_decrement
    {n : Nat}
    (bounded : n < uintModulus) :
    ChunkState.increment (ChunkState.decrement n) = n := by
  unfold ChunkState.increment ChunkState.decrement
  rw [Nat.mod_add_mod,
    show n + (uintModulus - 1) + 1 = n + uintModulus by
      simp [uintModulus]]
  rw [Nat.add_mod_right, Nat.mod_eq_of_lt bounded]

theorem chunkStart_setup
    (config : Cnf)
    (aes : Aes) :
    (chunkStart env config aes).Setup config where
  arrays :=
    { size := rfl
      plain := by
        intro plain
        simp only [chunkStart] at plain ⊢
        simp [plain]
      separate := by
        intro flag
        simp only [chunkStart] at flag ⊢
        simp [flag] }
  request := .refl config
  threadsBounded := Nat.le_refl _
  threadsPositive := id
  nBounded := by
    simp [chunkStart, uintModulus]
  bufSizeBytes := Nat.mul_comm _ 8

/-- A rerun keeps the setup, with one thread fewer. -/
theorem lowerThreads_setup
    {config : Cnf}
    {state : ChunkState Aes}
    (setup : state.Setup config)
    (threads : state.config.threads ≠ 1) :
    (state.filled env encBuffer).lowerThreads.Setup config where
  arrays :=
    { size := by
        change state.bufSize - state.config.chunkSize =
          state.config.chunkSize * (state.config.threads - 1)
        rw [setup.arrays.size, Nat.mul_sub_one]
      plain := setup.arrays.plain
      separate := setup.arrays.separate }
  request := setup.request.trans ⟨rfl, rfl, rfl, rfl, rfl, rfl⟩
  threadsBounded :=
    Nat.le_trans (Nat.sub_le _ 1) setup.threadsBounded
  threadsPositive := by
    intro someThread
    have positive := setup.threadsPositive someThread
    change 1 ≤ state.config.threads - 1
    omega
  nBounded := increment_lt _
  bufSizeBytes := setup.bufSizeBytes

/-- Up to its finish a pass keeps the setup. -/
theorem ChunkState.SameSetup.setup
    {config : Cnf}
    {first second : ChunkState Aes}
    (same : first.SameSetup second)
    (setup : first.Setup config) :
    second.Setup config where
  arrays := same.arrays setup.arrays
  request := setup.request.trans same.request
  threadsBounded := by
    rw [same.threads]
    exact setup.threadsBounded
  threadsPositive := by
    rw [same.threads]
    exact setup.threadsPositive
  nBounded := by
    rw [same.n]
    exact setup.nBounded
  bufSizeBytes := by
    rw [same.bufSizeBytes]
    exact setup.bufSizeBytes

/-- Finishing a pass, with its buffers swapped, keeps the setup. -/
theorem finished_setup
    {config : Cnf}
    {state : ChunkState Aes}
    (setup : state.Setup config) :
    (state.finished env).Setup config where
  arrays :=
    { size := by
        simpa using setup.arrays.size
      plain := by
        intro plain
        rw [finished_config] at plain
        rw [finished_genCurrent, if_neg (by simp [plain])]
        exact setup.arrays.plain plain
      separate := by
        intro flag
        rw [finished_config] at flag
        obtain ⟨current, previous, different⟩ :=
          setup.arrays.separate flag
        rw [finished_genCurrent, finished_genPrevious, if_pos flag,
          if_pos flag]
        exact ⟨previous, current, different.symm⟩ }
  request := by
    simpa using setup.request
  threadsBounded := by
    simpa using setup.threadsBounded
  threadsPositive := by
    simpa using setup.threadsPositive
  nBounded := by
    rw [finished_n]
    exact increment_lt _
  bufSizeBytes := by
    simpa using setup.bufSizeBytes

/-- Every pass keeps the setup. -/
theorem chunkPass_setup
    {config : Cnf}
    {state next : ChunkState Aes}
    (setup : state.Setup config)
    (pass : chunkPass env encBuffer state = .again next) :
    next.Setup config := by
  cases chunkPass_again pass with
  | rerun underflows threads result =>
      rw [result]
      exact lowerThreads_setup setup threads
  | finish base finishing writes result =>
      rw [result]
      exact finished_setup (finishing.sameSetup.setup setup)

/-- Every state that the chunk loop reaches has the setup. -/
theorem chunkLoop_setup
    {config : Cnf}
    {aes : Aes}
    {passes : Nat}
    {state : ChunkState Aes}
    (running :
      (chunkLoop env encBuffer).run passes (chunkStart env config aes) =
        .running state) :
    state.Setup config :=
  Loop.running_invariant
    (fun _ reached => reached.Setup config)
    (chunkStart_setup config aes)
    (fun _ _ pass setup => chunkPass_setup setup pass)
    running

end Setup

end RdRand
