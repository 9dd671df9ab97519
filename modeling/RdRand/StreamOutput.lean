import RdRand.CellSlices
import RdRand.DeviceStream
import RdRand.GenerateAmount
import RdRand.ChunkPipeline

namespace RdRand

/-!
# The output as the stream of the device

On a device that never fails what the generator puts out is known to the byte:
the words of the device's stream in order, apart from the slices of a round,
which lie where the threads that happened to fill them put them.  A round
takes the same words whatever the order is, so that the order of one round has
no effect on the others.
-/

open ControlLoop

/-- The slices of a round in the order in which they are filled. -/
def Environment.turns
    (env : Environment)
    (config : Cnf)
    (round : Nat) : List Nat :=
  (env.schedule round (config.threads + config.aesThread)).filter
    fun body => decide (body < config.threads)

/-- The words that one turn of a round takes from the stream. -/
def Environment.turnCells
    (env : Environment)
    (config : Cnf)
    (round turn : Nat) : List Cell :=
  streamWords env.device config.method config.chunkSize
    (config.chunkSize * (config.threads * round + turn))

/-- The slices of a round as they lie in the buffer. -/
def Environment.roundSlices
    (env : Environment)
    (config : Cnf)
    (round : Nat) : List (List Cell) :=
  (List.range config.threads).map fun slice =>
    env.turnCells config round ((env.turns config round).idxOf slice)

/-- The ending as the stream gives it. -/
def Environment.endingCells
    (env : Environment)
    (config : Cnf) : List Cell :=
  streamPieces env.device config.method
    (config.method.pieces env.endingAddress config.endingBytes)
    (config.chunkSize * (config.threads * config.chunkCount))

section Turns

variable (env : Environment) (config : Cnf)

/-- Every slice has one turn. -/
theorem Environment.turns_perm (round : Nat) :
    (env.turns config round).Perm (List.range config.threads) := by
  have all :
      (List.range (config.threads + config.aesThread)).filter
          (fun body => decide (body < config.threads)) =
        List.range config.threads := by
    rw [List.range_add, List.filter_append,
      List.filter_eq_self.mpr fun body member =>
        decide_eq_true (List.mem_range.mp member),
      List.filter_eq_nil_iff.mpr ?_, List.append_nil]
    intro body member
    obtain ⟨_, _, rfl⟩ := List.mem_map.mp member
    simp
  rw [← all]
  exact
    (env.schedule_perm round
      (config.threads + config.aesThread)).filter _

@[simp] theorem Environment.turnCells_length (round turn : Nat) :
    (env.turnCells config round turn).length = 8 * config.chunkSize := by
  simp [Environment.turnCells]

/-- The slices of a round are those of its turns, wherever they lie. -/
theorem Environment.roundSlices_perm (round : Nat) :
    (env.roundSlices config round).Perm
      ((List.range config.threads).map (env.turnCells config round)) := by
  have perm :=
    (CellMemory.turns_perm (env.turns_perm config round)).map
      (env.turnCells config round)
  rwa [List.map_map] at perm

/-- The turns of the rounds follow each other in the stream. -/
theorem Environment.rounds_stream (rounds : Nat) :
    ((List.range rounds).flatMap fun round =>
        ((List.range config.threads).map
          (env.turnCells config round)).flatten) =
      streamWords env.device config.method
        (config.chunkSize * (config.threads * rounds)) 0 := by
  have round_eq :
      ∀ round,
        ((List.range config.threads).map
            (env.turnCells config round)).flatten =
          streamWords env.device config.method
            (config.chunkSize * config.threads)
            (0 + config.chunkSize * config.threads * round) := by
    intro round
    rw [← streamWords_flatMap, ← List.flatMap_def]
    refine List.flatMap_congr fun turn _ => ?_
    rw [Environment.turnCells, Nat.mul_add, Nat.mul_assoc, Nat.zero_add]
  simp only [round_eq]
  rw [streamWords_flatMap, Nat.mul_assoc]

/-- Whatever the order of the slices is, the rounds take the same bytes. -/
theorem Environment.rounds_perm (rounds : Nat) :
    ((List.range rounds).flatMap fun round =>
        (env.roundSlices config round).flatten).Perm
      (streamWords env.device config.method
        (config.chunkSize * (config.threads * rounds)) 0) := by
  rw [← env.rounds_stream config rounds]
  exact
    List.Perm.flatMap_left _ fun round _ =>
      (env.roundSlices_perm config round).flatten

/-- Slices that are filled in their order lie in that of their turns. -/
theorem Environment.roundSlices_inOrder
    {round : Nat}
    (inOrder : env.turns config round = List.range config.threads) :
    env.roundSlices config round =
      (List.range config.threads).map (env.turnCells config round) := by
  rw [Environment.roundSlices, inOrder]
  refine List.map_congr_left fun slice member => ?_
  have below := List.mem_range.mp member
  have found :=
    List.nodup_range.idxOf_getElem slice (by rwa [List.length_range])
  rw [List.getElem_range] at found
  rw [found]

end Turns

section Region

variable
  {Aes : Type}
  {env : Environment}
  (encBuffer : EncBuffer Aes)

/--
The bodies of a region give the slices that they fill the next words of the
stream, turn by turn.
-/
theorem runBodies_stream
    (neverFails : env.device.NeverFails)
    {state : ChunkState Aes}
    (realMethod : state.config.method ≠ .methodsCount)
    (fits : 8 * state.config.chunkSize < uintModulus)
    (generates : state.generates = true)
    {order : List Nat}
    (separate :
      ∀ i ∈ order,
        i < state.config.threads ∨ state.genCurrent ≠ .buf)
    {word : Nat}
    {region : Region Aes}
    (start : region.position = state.config.method.position word) :
    let turns := order.filter fun i => decide (i < state.config.threads)
    let final := runBodies env encBuffer state order region
    final.position =
        state.config.method.position
          (word + state.config.chunkSize * turns.length) ∧
      final.memory state.genCurrent =
        CellMemory.storeAll (region.memory state.genCurrent)
          (CellMemory.sliceRuns (8 * state.config.chunkSize)
            (fun turn =>
              streamWords env.device state.config.method
                state.config.chunkSize
                (word + state.config.chunkSize * turn))
            turns) := by
  induction order using List.reverseRecOn with
  | nil =>
      exact ⟨start, rfl⟩
  | append_singleton earlier last inductionHypothesis =>
      obtain ⟨position, memory⟩ :=
        inductionHypothesis fun i member =>
          separate i (List.mem_append_left _ member)
      have step :
          runBodies env encBuffer state (earlier ++ [last]) region =
            parallelBody env encBuffer state
              (runBodies env encBuffer state earlier region) last := by
        simp [runBodies]
      simp only [step]
      generalize runBodies env encBuffer state earlier region = before
        at position memory ⊢
      unfold parallelBody
      by_cases filling : last < state.config.threads
      · have turns :
            (earlier ++ [last]).filter
                (fun i => decide (i < state.config.threads)) =
              (earlier.filter fun i =>
                decide (i < state.config.threads)) ++ [last] := by
          simp [List.filter_append, filling]
        rw [turns, if_pos filling, if_pos generates]
        simp only [fillBody, sliceFill, List.length_append,
          List.length_singleton, Memory.set_same]
        have aligned : 8 * (last * state.config.chunkSize) % 8 = 0 :=
          Nat.mul_mod_right 8 _
        have blocks :
            state.config.chunkSize * 8 % uintModulus =
              8 * state.config.chunkSize := by
          rw [Nat.mul_comm, Nat.mod_eq_of_lt fits]
        obtain ⟨next, applied⟩ :=
          generateWithMetod_stream neverFails realMethod
            (8 * (last * state.config.chunkSize))
            (8 * state.config.chunkSize) retryLimit
            (word + state.config.chunkSize *
              (earlier.filter fun i =>
                decide (i < state.config.threads)).length)
        rw [Method.pieces_words _ aligned fits] at next applied
        rw [List.length_replicate] at next
        rw [blocks, position]
        refine ⟨?_, ?_⟩
        · rw [next, Nat.mul_add, Nat.mul_one, Nat.add_assoc]
        · rw [applied, memory, CellMemory.sliceRuns_snoc,
            CellMemory.storeAll_snoc, Nat.mul_left_comm]
          rfl
      · have idle :
            (earlier ++ [last]).filter
                (fun i => decide (i < state.config.threads)) =
              earlier.filter fun i =>
                decide (i < state.config.threads) := by
          simp [List.filter_append, filling]
        rw [idle, if_neg filling]
        split
        · exact ⟨position, memory⟩
        · have other : state.genCurrent ≠ .buf :=
            (separate last (by simp)).resolve_left filling
          exact ⟨position, (Memory.set_other _ other _).trans memory⟩

/-- The bodies of a region that drains the pipeline take no step. -/
theorem runBodies_position
    {state : ChunkState Aes}
    (drains : state.generates = false)
    (order : List Nat)
    (region : Region Aes) :
    (runBodies env encBuffer state order region).position =
      region.position := by
  induction order generalizing region with
  | nil =>
      rfl
  | cons i rest inductionHypothesis =>
      have body :
          (parallelBody env encBuffer state region i).position =
            region.position := by
        unfold parallelBody
        rw [drains]
        split
        · rfl
        · split
          · rfl
          · rfl
      exact (inductionHypothesis _).trans body

/-- A generating region gives its buffer the next words of the stream. -/
theorem parallelFor_stream
    (neverFails : env.device.NeverFails)
    {config : Cnf}
    (split : config.Split)
    (realMethod : config.method ≠ .methodsCount)
    {state : ChunkState Aes}
    (setup : state.Setup config)
    (threads : state.config.threads = config.threads)
    (generates : state.generates = true)
    (start :
      state.position =
        config.method.position
          (config.chunkSize * (config.threads * state.rounds))) :
    (parallelFor env encBuffer state).position =
        config.method.position
          (config.chunkSize * (config.threads * (state.rounds + 1))) ∧
      state.generatedBuffer env encBuffer =
        (env.roundSlices config state.rounds).flatten := by
  have request := setup.request
  have aesThread : state.config.aesThread = config.aesThread := by
    simp only [Cnf.aesThread, request.aesFlag]
  have turns :
      (state.order env).filter
          (fun i => decide (i < state.config.threads)) =
        env.turns config state.rounds := by
    rw [ChunkState.order, Environment.turns, threads, aesThread]
  have fits : 8 * config.chunkSize < uintModulus := by
    have bounded := split.chunkBounded
    have uintLarge : 8 * maxChunkSize < uintModulus := by
      decide
    omega
  have perm := env.turns_perm config state.rounds
  have count : (env.turns config state.rounds).length = config.threads := by
    rw [perm.length_eq, List.length_range]
  obtain ⟨position, memory⟩ :=
    runBodies_stream encBuffer neverFails
      (by rw [request.method]; exact realMethod)
      (by rw [request.chunkSize]; exact fits)
      generates (order_separate env state setup.arrays)
      (show state.startRegion.position =
          state.config.method.position
            (config.chunkSize * (config.threads * state.rounds)) by
        rw [request.method]; exact start)
  rw [turns, request.method, request.chunkSize] at position memory
  refine ⟨?_, ?_⟩
  · refine position.trans ?_
    rw [count, Nat.mul_succ, Nat.mul_add]
  · have size :
        8 * state.bufSize = 8 * config.chunkSize * config.threads := by
      rw [setup.arrays.size, request.chunkSize, threads, Nat.mul_assoc]
    rw [ChunkState.generatedBuffer, parallelFor, memory, size,
      CellMemory.window_sliceRuns_perm (fun turn => by simp) perm,
      Environment.roundSlices, ← List.flatMap_def]
    simp only [Environment.turnCells, Nat.mul_add]

end Region

section Run

variable
  {Aes : Type}
  {env : Environment}
  {encBuffer : EncBuffer Aes}

/-- The buffers that so many passes generate. -/
def Cnf.buffers (config : Cnf) (passes : Nat) : Nat :=
  if config.bytes = 0 ∨ uintModulus ≤ config.chunkCount then
    passes
  else
    min passes config.chunkCount

/-- The chunk loop on a device that never fails, after so many passes. -/
structure ChunkState.Streamed
    (env : Environment)
    (config : Cnf)
    (passes : Nat)
    (state : ChunkState Aes) : Prop where
  steady : state.Steady config passes
  rounds : state.rounds = passes
  within :
    0 < config.bytes →
    config.chunkCount < uintModulus →
    passes ≤ config.chunkCount + config.aesThread
  position :
    state.position =
      config.method.position
        (config.chunkSize * (config.threads * config.buffers passes))
  generated :
    generatedBuffers state.trace =
      (List.range (config.buffers passes)).map
        fun round => (env.roundSlices config round).flatten
  plain :
    config.aesFlag = false →
    writtenBuffers state.trace = generatedBuffers state.trace

theorem chunkStart_streamed
    (config : Cnf)
    (aes : Aes) :
    (chunkStart env config aes).Streamed env config 0 where
  steady := chunkStart_steady config aes
  rounds := rfl
  within := fun _ _ => Nat.zero_le _
  position := by
    simp [chunkStart, Cnf.buffers, Method.position]
  generated := by
    simp [chunkStart, Cnf.buffers, generatedBuffers]
  plain := fun _ => rfl

@[simp] theorem finished_rounds (state : ChunkState Aes) :
    (state.finished env).rounds = state.rounds := by
  unfold ChunkState.finished ChunkState.prepared
    ChunkState.recordGenerated
  split <;> split <;> split <;> rfl

section Phase

variable
  {config : Cnf}
  (counterFits : config.CounterFits)
  (passesFit :
    config.chunkCount + config.aesThread < sizeModulus)
  {passes : Nat}
  {state : ChunkState Aes}
  (streamed : state.Streamed env config passes)
  (guarded : state.guard = true)

include counterFits passesFit streamed guarded

/-- A loop that has a bound the counter can reach is below it. -/
theorem ChunkState.Streamed.below
    (finite : 0 < config.bytes)
    (countable : config.chunkCount < uintModulus) :
    state.n = passes ∧
      passes < config.chunkCount + config.aesThread := by
  have within := streamed.within finite countable
  have small : config.chunkCount + config.aesThread < uintModulus ∨
      config.aesFlag = false := by
    cases flag : config.aesFlag with
    | false =>
        exact .inr rfl
    | true =>
        have differs : config.chunkCount ≠ uintModulus - 1 :=
          fun same => counterFits ⟨flag, finite, same⟩
        simp only [Cnf.aesThread, flag, if_true]
        left
        omega
  have n : state.n = passes := by
    rw [streamed.steady.n]
    refine Nat.mod_eq_of_lt ?_
    rcases small with fits | plain
    · exact Nat.lt_of_le_of_lt within fits
    · simp only [Cnf.aesThread, plain, Bool.false_eq_true, if_false]
        at within
      omega
  refine ⟨n, ?_⟩
  rw [← n]
  exact (streamed.steady.setup.guard_iff finite passesFit).mp guarded

/-- A pass generates exactly where it adds a buffer. -/
theorem ChunkState.Streamed.phase :
    state.generates = true ∧
        config.buffers passes = passes ∧
        config.buffers (passes + 1) = passes + 1 ∨
      state.generates = false ∧
        config.buffers (passes + 1) = config.buffers passes := by
  have request := streamed.steady.setup.request
  by_cases unbounded :
      config.bytes = 0 ∨ uintModulus ≤ config.chunkCount
  · left
    simp only [Cnf.buffers, if_pos unbounded, and_self, and_true]
    rw [ChunkState.generates, request.bytes, request.chunkCount,
      streamed.steady.n]
    rcases unbounded with unlimited | uncountable
    · simp [unlimited]
    · have small := Nat.mod_lt passes (show 0 < uintModulus by decide)
      have wanted : passes % uintModulus < config.chunkCount :=
        Nat.lt_of_lt_of_le small uncountable
      simp [wanted]
  · obtain ⟨some, countable⟩ := not_or.mp unbounded
    obtain ⟨n, _⟩ :=
      streamed.below counterFits passesFit guarded
        (Nat.pos_of_ne_zero some) (Nat.not_le.mp countable)
    have generates :
        state.generates = decide (passes < config.chunkCount) := by
      simp [ChunkState.generates, request.bytes, request.chunkCount, n,
        some]
    simp only [Cnf.buffers, if_neg unbounded, generates,
      decide_eq_true_eq, decide_eq_false_iff_not]
    omega

end Phase

/-- A pass takes the next words of the stream. -/
theorem ChunkState.Streamed.pass
    (encBuffer : EncBuffer Aes)
    (reliable : env.Reliable)
    {config : Cnf}
    (counterFits : config.CounterFits)
    (split : config.Split)
    (realMethod : config.method ≠ .methodsCount)
    {passes : Nat}
    {state : ChunkState Aes}
    (streamed : state.Streamed env config passes)
    (guarded : state.guard = true) :
    chunkPass env encBuffer state =
        .again (state.passed env encBuffer) ∧
      (state.passed env encBuffer).Streamed env config (passes + 1) := by
  have setup := streamed.steady.setup
  have recovered : ¬ Underflows env encBuffer state :=
    not_underflows_of_neverFails reliable.neverFails split realMethod
      setup
  have phase := streamed.phase counterFits split.passes_lt guarded
  have quiet :
      state.generates = false →
        (parallelFor env encBuffer state).position = state.position :=
    fun drains => runBodies_position encBuffer drains _ _
  refine
    ⟨chunkPass_proceeds reliable.writesAll recovered,
      chunkPass_steady reliable.writesAll recovered streamed.steady,
      ?_, ?_, ?_, ?_, ?_⟩
  · rw [ChunkState.passed, finished_rounds]
    exact congrArg (· + 1) streamed.rounds
  · intro finite countable
    exact
      (streamed.below counterFits split.passes_lt guarded finite
        countable).2
  · rw [ChunkState.passed, finished_position]
    change (parallelFor env encBuffer state).position = _
    rcases phase with ⟨generates, before, after⟩ | ⟨drains, same⟩
    · have start := streamed.position
      rw [before, ← streamed.rounds] at start
      rw [after, ← streamed.rounds]
      exact
        (parallelFor_stream encBuffer reliable.neverFails split
          realMethod setup streamed.steady.threads generates start).1
    · rw [quiet drains, same]
      exact streamed.position
  · rw [passed_generatedBuffers setup.arrays, streamed.generated]
    rcases phase with ⟨generates, before, after⟩ | ⟨drains, same⟩
    · have start := streamed.position
      rw [before, ← streamed.rounds] at start
      rw [if_pos generates, after, before, List.range_succ,
        List.map_append, List.map_singleton,
        (parallelFor_stream encBuffer reliable.neverFails split
          realMethod setup streamed.steady.threads generates start).2,
        streamed.rounds]
    · rw [if_neg (by rw [drains]; exact Bool.false_ne_true), same,
        List.append_nil]
  · intro plain
    have statePlain : state.config.aesFlag = false := by
      rw [setup.request.aesFlag, plain]
    exact
      passed_plain reliable.writesAll setup.arrays statePlain
        (generates_of_guard statePlain guarded) (streamed.plain plain)

/-- Every state of the chunk loop is streamed. -/
theorem generateChunk_streamed
    (reliable : env.Reliable)
    {config : Cnf}
    (counterFits : config.CounterFits)
    (split : config.Split)
    (realMethod : config.method ≠ .methodsCount)
    {aes : Aes}
    {passes : Nat}
    {state : ChunkState Aes}
    (running :
      generateChunk env encBuffer config aes passes = .running state) :
    state.Streamed env config passes := by
  refine Loop.running_invariant
    (fun count reached => reached.Streamed env config count)
    (chunkStart_streamed config aes) ?_ running
  intro count before after _ guarded pass streamed
  obtain ⟨proceeds, next⟩ :=
    streamed.pass encBuffer reliable counterFits split realMethod
      guarded
  change chunkPass env encBuffer before = .again after at pass
  rw [proceeds] at pass
  cases pass
  exact next

/-- A loop that ends was not to go on forever, and is through. -/
theorem generate_streamed
    (reliable : env.Reliable)
    {config : Cnf}
    (counterFits : config.CounterFits)
    (split : config.Split)
    (realMethod : config.method ≠ .methodsCount)
    {aes : Aes}
    {passes : Nat}
    {generated : Generated Aes}
    (ends : generate env encBuffer config aes passes = some generated) :
    0 < config.bytes ∧
      ∃ state,
        generated = finishGenerate env encBuffer none state ∧
          state.Streamed env config
            (config.chunkCount + config.aesThread) ∧
          config.buffers (config.chunkCount + config.aesThread) =
            config.chunkCount := by
  unfold generate at ends
  cases status : generateChunk env encBuffer config aes passes with
  | running current =>
      simp [status] at ends
  | left exit final =>
      obtain ⟨earlier, before, _, running, guarded, pass⟩ :=
        Loop.left_reached status
      have streamed :=
        generateChunk_streamed reliable counterFits split realMethod
          running
      have proceeds :=
        (streamed.pass encBuffer reliable counterFits split realMethod
          guarded).1
      change chunkPass env encBuffer before = .leave exit final at pass
      rw [proceeds] at pass
      cases pass
  | finished final =>
      obtain ⟨earlier, _, running, unguarded⟩ :=
        Loop.finished_reached status
      have streamed :=
        generateChunk_streamed reliable counterFits split realMethod
          running
      have setup := streamed.steady.setup
      have finite : 0 < config.bytes := by
        rw [Nat.pos_iff_ne_zero]
        intro unlimited
        change final.guard = false at unguarded
        simp [ChunkState.guard, setup.request.bytes, unlimited]
          at unguarded
      have through :
          ¬ final.n < config.chunkCount + config.aesThread := by
        rw [← setup.guard_iff finite split.passes_lt,
          Bool.not_eq_true]
        exact unguarded
      have countable : config.chunkCount < uintModulus := by
        have small := setup.nBounded
        omega
      have last : earlier = config.chunkCount + config.aesThread := by
        have within := streamed.within finite countable
        have wraps := Nat.mod_le earlier uintModulus
        rw [streamed.steady.n] at through
        omega
      subst last
      have bounded :
          ¬ (config.bytes = 0 ∨ uintModulus ≤ config.chunkCount) := by
        omega
      refine ⟨finite, final, ?_, streamed, ?_⟩
      · simp only [status, Option.some.injEq] at ends
        exact ends.symm
      · rw [Cnf.buffers, if_neg bounded]
        exact Nat.min_eq_right (Nat.le_add_right _ _)

/-- An ending that is generated whole is the ending of the stream. -/
theorem generateEnding_stream
    (reliable : env.Reliable)
    {config : Cnf}
    (split : config.Split)
    (realMethod : config.method ≠ .methodsCount)
    (whole : config.method = .getBytes ∨ config.endingBytes % 8 = 0)
    (plain : config.aesFlag = false)
    {passes : Nat}
    {state : ChunkState Aes}
    (streamed : state.Streamed env config passes)
    (all : config.buffers passes = config.chunkCount) :
    outputCells (generateEnding env encBuffer state).trace =
      outputCells state.trace ++ env.endingCells config := by
  have setup := streamed.steady.setup
  have request := setup.request
  have generated :=
    (ending_whole_iff reliable.neverFails split realMethod setup).mpr
      whole
  have fits := split.endingBytes_lt
  have stateMethod : state.config.method ≠ .methodsCount := by
    rw [request.method]
    exact realMethod
  have position : state.position =
      state.config.method.position
        (config.chunkSize * (config.threads * config.chunkCount)) := by
    rw [request.method, ← all]
    exact streamed.position
  have applied :=
    (generateWithMetod_stream reliable.neverFails stateMethod
      env.endingAddress (state.config.endingBytes % uintModulus)
      retryLimit
      (config.chunkSize * (config.threads * config.chunkCount))).2
        (env.stack .generateEnding .genBuf1)
  have length : (env.endingCells config).length = config.endingBytes := by
    rw [Environment.endingCells, streamPieces_length,
      config.method.pieces_sum env.endingAddress fits whole]
  have ending :
      CellMemory.window
          ((generateWithMetod env.device state.config env.endingAddress
            (state.config.endingBytes % uintModulus) retryLimit
            state.position).applyTo
              (env.stack .generateEnding .genBuf1))
          env.endingAddress state.config.endingBytes =
        env.endingCells config := by
    rw [position, applied, request.method, request.endingBytes,
      Nat.mod_eq_of_lt fits, ← Environment.endingCells]
    rw [← length]
    exact CellMemory.window_store _ _ _
  have statePlain : state.config.aesFlag = false := by
    rw [request.aesFlag, plain]
  have all :=
    reliable.writesAll state.writes state.config.endingBytes
  unfold generateEnding
  simp only
  rw [if_neg (not_not.mpr generated), ending, all]
  have kept :
      (env.endingCells config).take state.config.endingBytes =
        env.endingCells config := by
    rw [request.endingBytes]
    exact List.take_of_length_le (Nat.le_of_eq length)
  simp [statePlain, outputCells, Event.outputCells, kept]

/-- Without AES the rounds that were generated are put out. -/
theorem ChunkState.Streamed.output
    {config : Cnf}
    {passes : Nat}
    {state : ChunkState Aes}
    (streamed : state.Streamed env config passes)
    (plain : config.aesFlag = false) :
    outputCells state.trace =
      (List.range (config.buffers passes)).flatMap
        fun round => (env.roundSlices config round).flatten := by
  rw [outputCells_eq_flatten, streamed.plain plain, streamed.generated,
    List.flatMap_def]

/-- The ending generates no buffer. -/
theorem generateEnding_generatedBuffers
    (encBuffer : EncBuffer Aes)
    (state : ChunkState Aes) :
    generatedBuffers (generateEnding env encBuffer state).trace =
      generatedBuffers state.trace := by
  unfold generateEnding
  simp only
  split
  · rfl
  · cases state.config.aesFlag <;>
      simp [generatedBuffers, Event.generatedBuffer]

end Run

/--
On a device that never fails the buffers that are generated are rounds of the
stream, in order, whose slices lie as the schedule has it; without AES these
rounds and the ending of the stream are what is put out.
-/
theorem generate_stream
    {Aes : Type}
    {env : Environment}
    {encBuffer : EncBuffer Aes}
    {libc : LibC}
    {errno : Bool}
    {arguments : List Argument}
    {config : Cnf}
    (parsed :
      parseArgs libc errno arguments defaultConfigSetting =
        (.success, config))
    (counterFits : config.CounterFits)
    (reliable : env.Reliable)
    (aes : Aes) :
    (∀ round,
      (env.roundSlices config round).Perm
        ((List.range config.threads).map
          (env.turnCells config round))) ∧
    (∀ passes state,
      generateChunk env encBuffer config aes passes = .running state →
      generatedBuffers state.trace =
          (List.range (config.buffers passes)).map
            (fun round => (env.roundSlices config round).flatten) ∧
        (config.aesFlag = false →
          outputCells state.trace =
            (List.range (config.buffers passes)).flatMap
              fun round => (env.roundSlices config round).flatten)) ∧
    (∀ passes generated,
      generate env encBuffer config aes passes = some generated →
      generatedBuffers generated.trace =
          (List.range config.chunkCount).map
            (fun round => (env.roundSlices config round).flatten) ∧
        (config.aesFlag = false →
          config.method = .getBytes ∨ config.endingBytes % 8 = 0 →
          outputCells generated.trace =
            ((List.range config.chunkCount).flatMap
              fun round => (env.roundSlices config round).flatten) ++
                env.endingCells config)) := by
  obtain ⟨split, realMethod⟩ := parseArgs_split parsed
  refine ⟨env.roundSlices_perm config, ?_, ?_⟩
  · intro passes state running
    have streamed :=
      generateChunk_streamed reliable counterFits split realMethod
        running
    exact ⟨streamed.generated, streamed.output⟩
  · intro passes generated ends
    obtain ⟨finite, state, rfl, streamed, all⟩ :=
      generate_streamed reliable counterFits split realMethod ends
    refine ⟨?_, ?_⟩
    · rw [← all, ← streamed.generated]
      exact generateEnding_generatedBuffers encBuffer state
    · intro plain whole
      rw [← all, ← streamed.output plain]
      exact
        generateEnding_stream reliable split realMethod whole plain
          streamed all

/-- A device that counts, with the bodies of a region run backwards. -/
def Environment.backwards : Environment :=
  { Environment.inOrder .counting with
    schedule := fun _ bodies => (List.range bodies).reverse
    schedule_perm := fun _ _ => List.reverse_perm _ }

/-- The second thread gets the first words of 32 bytes for two threads. -/
theorem generate_stream_backwards :
    ∃ config,
      parseArgs LibC.decimal false
          [.amount "32", .threads "2"] defaultConfigSetting =
        (.success, config) ∧
      Environment.backwards.roundSlices config 0 =
        [streamWords .counting .getBytes 2 2,
          streamWords .counting .getBytes 2 0] ∧
      ∀ passes generated,
        generate .backwards plainCopy config () passes =
          some generated →
        outputCells generated.trace =
          ((List.range config.chunkCount).flatMap fun round =>
              (Environment.backwards.roundSlices config
                round).flatten) ++
            Environment.backwards.endingCells config := by
  have parsed :
      parseArgs LibC.decimal false
          [.amount "32", .threads "2"] defaultConfigSetting =
        (.success,
          (parseArgs LibC.decimal false
            [.amount "32", .threads "2"] defaultConfigSetting).2) := by
    decide
  have reliable : Environment.backwards.Reliable :=
    ⟨Device.counting_neverFails, fun _ _ => rfl⟩
  refine ⟨_, parsed, by decide, fun passes generated ends => ?_⟩
  exact
    ((generate_stream parsed (by unfold Cnf.CounterFits; decide) reliable
      ()).2.2 passes generated ends).2 rfl (.inl rfl)

end RdRand
