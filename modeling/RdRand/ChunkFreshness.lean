import RdRand.ChunkProgress
import RdRand.ParseArgs

namespace RdRand

/-!
# Fresh words in the output of the chunk loop

Without AES, `generate_chunk` writes fresh words only, as long as a slice that
comes short is one the code can recover from.  It cannot when the amount is
unlimited, where `chunk_count` is 0 and the error handling is never entered,
nor when the slow path of a single thread starts past an eighth of its buffer,
where the size it passes on has wrapped around.
-/

open ControlLoop

section Recovery

variable
  {Aes : Type}
  {env : Environment}
  {encBuffer : EncBuffer Aes}

/--
If a slice of a generating pass comes short, the amount is finite, and a
single thread has got at most an eighth of its buffer.
-/
def Recoverable
    (env : Environment)
    (encBuffer : EncBuffer Aes)
    (state : ChunkState Aes) : Prop :=
  state.generates = true →
    ¬ SlicesComplete env encBuffer state →
    0 < state.config.bytes ∧
      (state.config.threads = 1 →
        (sliceFill env state 0 state.position).generated ≤
          state.config.chunkSize)

/-- The slow refill never gets past an eighth of the buffer it starts in. -/
theorem slowRefill_written_le
    {state : ChunkState Aes}
    (fits :
      state.config.threads * state.config.chunkSize < uintModulus)
    (cycles : Nat)
    {slow : SlowFill}
    (early :
      8 * slow.written ≤ state.config.threads * state.config.chunkSize) :
    8 * (slowRefill env state cycles slow).written ≤
      state.config.threads * state.config.chunkSize := by
  induction cycles generalizing slow with
  | zero =>
      exact early
  | succ cycles inductionHypothesis =>
      unfold slowRefill
      split
      · exact early
      · have size :
            slowSize state.config slow.written =
              state.config.threads * state.config.chunkSize -
                8 * slow.written := by
          unfold slowSize uintModulus sizeModulus at *
          omega
        have small :
            slowSize state.config slow.written < uintModulus :=
          Nat.mod_lt _ (by decide)
        have bounded :=
          (generateWithMetod_sound env.device state.config slow.written
            small slowRetryLimit slow.position).bounded
        apply inductionHypothesis
        simp only
        omega

/-- The bodies of other threads neither count words nor take steps. -/
theorem runBodies_idle
    (env : Environment)
    (encBuffer : EncBuffer Aes)
    {state : ChunkState Aes}
    {order : List Nat}
    (idle : ∀ i ∈ order, ¬ i < state.config.threads)
    (region : Region Aes) :
    (runBodies env encBuffer state order region).written =
        region.written ∧
      (runBodies env encBuffer state order region).position =
        region.position := by
  induction order generalizing region with
  | nil =>
      exact ⟨rfl, rfl⟩
  | cons i rest inductionHypothesis =>
      have body :
          (parallelBody env encBuffer state region i).written =
              region.written ∧
            (parallelBody env encBuffer state region i).position =
              region.position := by
        unfold parallelBody
        rw [if_neg (idle i List.mem_cons_self)]
        split
        · exact ⟨rfl, rfl⟩
        · exact ⟨rfl, rfl⟩
      have later :=
        inductionHypothesis
          (fun later member => idle later (List.mem_cons_of_mem i member))
          (parallelBody env encBuffer state region i)
      exact ⟨later.1.trans body.1, later.2.trans body.2⟩

/-- The words a single thread counts are those of its one fill. -/
theorem parallelFor_written_oneThread
    (env : Environment)
    (encBuffer : EncBuffer Aes)
    {state : ChunkState Aes}
    (oneThread : state.config.threads = 1)
    (generates : state.generates = true) :
    (parallelFor env encBuffer state).written =
      (sliceFill env state 0 state.position).generated / 8 := by
  have member : 0 ∈ state.order env := by
    rw [mem_order]
    omega
  have nodup : (state.order env).Nodup := by
    rw [ChunkState.order, (env.schedule_perm _ _).nodup_iff]
    exact List.nodup_range
  obtain ⟨before, after, split⟩ := List.append_of_mem member
  rw [split, List.perm_middle.nodup_iff, List.nodup_cons] at nodup
  have idle :
      ∀ i ∈ before ++ after, ¬ i < state.config.threads := by
    intro i others
    have different : i ≠ 0 := by
      rintro rfl
      exact nodup.1 others
    omega
  have first :=
    runBodies_idle env encBuffer
      (fun i (inBefore : i ∈ before) =>
        idle i (List.mem_append_left _ inBefore))
      state.startRegion
  have whole :
      parallelFor env encBuffer state =
        runBodies env encBuffer state after
          (parallelBody env encBuffer state
            (runBodies env encBuffer state before state.startRegion)
            0) := by
    rw [parallelFor, split, runBodies, List.foldl_append,
      List.foldl_cons]
    rfl
  have last :=
    runBodies_idle env encBuffer
      (fun i (inAfter : i ∈ after) =>
        idle i (List.mem_append_right _ inAfter))
      (parallelBody env encBuffer state
        (runBodies env encBuffer state before state.startRegion) 0)
  have generating : 0 < state.config.threads := by
    omega
  rw [whole, last.1]
  simp only [parallelBody, generating, generates, if_true, fillBody,
    first.1, first.2]
  exact Nat.zero_add _

/-- A single thread that got at most an eighth of its buffer gives up. -/
theorem slow_written_ne
    {state : ChunkState Aes}
    (arrays : state.Arrays)
    (chunkBounded : state.config.chunkSize ≤ maxChunkSize)
    (generates : state.generates = true)
    (oneThread : state.config.threads = 1)
    (short :
      (parallelFor env encBuffer state).written ≠ state.bufSize)
    (early :
      (sliceFill env state 0 state.position).generated ≤
        state.config.chunkSize) :
    (state.slow env encBuffer).written ≠ state.bufSize := by
  have size := arrays.size
  have words :=
    parallelFor_written_oneThread env encBuffer oneThread generates
  rw [oneThread, Nat.mul_one] at size
  have stays :
      8 * (state.slow env encBuffer).written ≤
        state.config.threads * state.config.chunkSize := by
    apply slowRefill_written_le
    · change state.config.threads * state.config.chunkSize < _
      rw [oneThread]
      have uintLarge : maxChunkSize < uintModulus := by
        decide
      omega
    · change
        8 * (parallelFor env encBuffer state).written ≤
          state.config.threads * state.config.chunkSize
      rw [oneThread]
      omega
  rw [oneThread] at stays
  omega

/-- A recoverable pass that is finished has filled all its slices. -/
theorem Finishing.slicesComplete
    {state base : ChunkState Aes}
    (arrays : state.Arrays)
    (chunkBounded : state.config.chunkSize ≤ maxChunkSize)
    (generates : state.generates = true)
    (recoverable : Recoverable env encBuffer state)
    (finishing : Finishing env encBuffer state base) :
    SlicesComplete env encBuffer state := by
  by_contra incomplete
  obtain ⟨finite, recovers⟩ := recoverable generates incomplete
  cases finishing with
  | region recovered =>
      apply recovered
      refine ⟨?_, ?_⟩
      · rw [Ne, parallelFor_written_eq_iff arrays generates]
        exact incomplete
      · have wanted := generates
        simp only [ChunkState.generates, Bool.or_eq_true,
          decide_eq_true_eq] at wanted
        omega
  | refill underflows oneThread whole =>
      exact
        slow_written_ne arrays chunkBounded generates oneThread
          underflows.short (recovers oneThread) whole

/-- A recoverable pass that is finished has filled every word. -/
theorem Finishing.fresh
    {state base : ChunkState Aes}
    (arrays : state.Arrays)
    (chunkBounded : state.config.chunkSize ≤ maxChunkSize)
    (generates : state.generates = true)
    (recoverable : Recoverable env encBuffer state)
    (finishing : Finishing env encBuffer state base)
    {index : Nat}
    (below : index < state.bufSize) :
    WordFrom env.device state.position
      (base.memory state.genCurrent) index := by
  have counted :
      (parallelFor env encBuffer state).written = state.bufSize :=
    (parallelFor_written_eq_iff arrays generates).mpr
      (finishing.slicesComplete arrays chunkBounded generates recoverable)
  cases finishing with
  | region recovered =>
      exact parallelFor_fresh env encBuffer state arrays generates
        counted below
  | refill underflows oneThread whole =>
      exact absurd counted underflows.short

end Recovery

section Freshness

variable
  {Aes : Type}
  {env : Environment}
  {encBuffer : EncBuffer Aes}

/--
Every word passed to `fwrite` is the value of a step that succeeded after the
previous output.
-/
def FreshWords
    (device : Device)
    (before : List (Event Aes))
    (data : List Cell)
    (_aes : Aes) : Prop :=
  ∀ index,
    8 * index < data.length →
    ∃ position,
      positionOfLastOutput before ≤ position ∧
        device.Delivers position ∧
        ∀ lane,
          lane < 8 →
          data[8 * index + lane]? =
            some (Cell.ofStep device position lane)

/-- A window of fresh words is fresh data. -/
theorem freshWords_window
    {device : Device}
    {since size : Nat}
    {contents : Nat → Cell}
    {before : List (Event Aes)}
    (le : positionOfLastOutput before ≤ since)
    (fresh :
      ∀ index, index < size → WordFrom device since contents index)
    (aes : Aes) :
    FreshWords device before
      (CellMemory.window contents 0 (8 * size)) aes := by
  intro index inside
  rw [CellMemory.window_length] at inside
  obtain ⟨position, notBefore, delivers, lanes⟩ :=
    fresh index (by omega)
  refine ⟨position, Nat.le_trans le notBefore, delivers, ?_⟩
  intro lane small
  rw [← lanes lane small, List.getElem?_eq_getElem (by simp; omega)]
  simp

/-- What the passes of a loop without AES keep of the output. -/
structure ChunkState.FreshSoFar
    (device : Device)
    (state : ChunkState Aes) : Prop where
  outputs : EveryOutput (FreshWords device) state.trace
  position : positionOfLastOutput state.trace ≤ state.position

/-- The region of a pass without AES adds no event. -/
theorem parallelFor_trace_plain
    {state : ChunkState Aes}
    (plain : state.config.aesFlag = false) :
    (parallelFor env encBuffer state).trace = state.trace :=
  (parallelFor_sameBesides env encBuffer
    (by simp [ChunkState.encrypts, plain])).trace

/-- A recoverable pass without AES that writes does so freshly. -/
theorem afterWrite_freshSoFar
    {config : Cnf}
    {state base : ChunkState Aes}
    (setup : state.Setup config)
    (plain : config.aesFlag = false)
    (chunkBounded : config.chunkSize ≤ maxChunkSize)
    (guarded : state.guard = true)
    (recoverable : Recoverable env encBuffer state)
    (fresh : state.FreshSoFar env.device)
    (finishing : Finishing env encBuffer state base) :
    (base.prepared.afterWrite env).FreshSoFar env.device := by
  have statePlain : state.config.aesFlag = false := by
    rw [setup.request.aesFlag, plain]
  have same := finishing.sameSetup
  have generates := generates_of_guard statePlain guarded
  have current := setup.arrays.plain statePlain
  have baseTrace : base.trace = state.trace :=
    finishing.trace.trans (parallelFor_trace_plain statePlain)
  have quiet := generatedEvents_quiet base
  have lastOutput :
      positionOfLastOutput (base.trace ++ base.generatedEvents) =
        positionOfLastOutput state.trace := by
    rw [positionOfLastOutput_append _ quiet, baseTrace]
  have words :
      ∀ index,
        index < base.bufSize →
        WordFrom env.device state.position (base.memory .buf) index := by
    intro index below
    rw [same.bufSize] at below
    rw [← current]
    refine finishing.fresh setup.arrays ?_ generates recoverable below
    rw [setup.request.chunkSize]
    exact chunkBounded
  refine ⟨?_, ?_⟩
  · simp only [ChunkState.afterWrite, prepared_trace]
    apply everyOutput_snoc
    · refine everyOutput_append ?_ quiet
      rw [baseTrace]
      exact fresh.outputs
    · intro data acceptedBytes position aes isOutput
      cases isOutput
      rw [prepared_memory, prepared_bufSize]
      refine freshWords_window ?_ words _
      rw [lastOutput]
      exact fresh.position
  · simp only [ChunkState.afterWrite, positionOfLastOutput_snoc,
      Event.positionAfter]
    exact Nat.le_refl _

/-- A recoverable pass keeps the output fresh. -/
theorem chunkPass_freshSoFar
    {config : Cnf}
    {state next : ChunkState Aes}
    (setup : state.Setup config)
    (plain : config.aesFlag = false)
    (chunkBounded : config.chunkSize ≤ maxChunkSize)
    (guarded : state.guard = true)
    (recoverable : Recoverable env encBuffer state)
    (fresh : state.FreshSoFar env.device)
    (pass : chunkPass env encBuffer state = .again next) :
    next.FreshSoFar env.device := by
  have statePlain : state.config.aesFlag = false := by
    rw [setup.request.aesFlag, plain]
  cases chunkPass_again pass with
  | rerun underflows threads result =>
      have sameTrace : next.trace = state.trace := by
        rw [result]
        exact parallelFor_trace_plain statePlain
      refine ⟨?_, ?_⟩
      · rw [sameTrace]
        exact fresh.outputs
      · rw [sameTrace, result]
        exact Nat.le_trans fresh.position
          (parallelFor_advances env encBuffer state)
  | finish base finishing writes result =>
      have basePlain : base.config.aesFlag = false := by
        rw [finishing.sameSetup.request.aesFlag, statePlain]
      have written :=
        afterWrite_freshSoFar setup plain chunkBounded guarded
          recoverable fresh finishing
      rw [result, ChunkState.finished,
        if_neg (by simp [ChunkState.skipsWrite, basePlain])]
      exact ⟨written.outputs, written.position⟩

/-- An early exit keeps the output fresh. -/
theorem chunkPass_leave_freshSoFar
    {config : Cnf}
    {state final : ChunkState Aes}
    {exit : ChunkExit}
    (setup : state.Setup config)
    (plain : config.aesFlag = false)
    (chunkBounded : config.chunkSize ≤ maxChunkSize)
    (guarded : state.guard = true)
    (recoverable : Recoverable env encBuffer state)
    (fresh : state.FreshSoFar env.device)
    (pass : chunkPass env encBuffer state = .leave exit final) :
    final.FreshSoFar env.device := by
  cases chunkPass_leave pass with
  | hardwareProblem underflows oneThread short =>
      have statePlain : state.config.aesFlag = false := by
        rw [setup.request.aesFlag, plain]
      have sameTrace :
          ((state.filled env encBuffer).refilled
            (state.slow env encBuffer)).trace = state.trace :=
        parallelFor_trace_plain statePlain
      refine ⟨?_, ?_⟩
      · rw [sameTrace]
        exact fresh.outputs
      · rw [sameTrace]
        exact Nat.le_trans fresh.position
          (Nat.le_trans (parallelFor_advances env encBuffer state)
            (slow_advances state))
  | shortWrite base finishing writes short =>
      exact
        afterWrite_freshSoFar setup plain chunkBounded guarded
          recoverable fresh finishing

/--
Without AES, if every pass of a run of `generate_chunk` is recoverable, every
word the run passes to `fwrite` was stored by a step that succeeded after the
previous `fwrite`.
-/
theorem generateChunk_words_fresh
    {libc : LibC}
    {errno : Bool}
    {arguments : List Argument}
    {config : Cnf}
    (parsed :
      parseArgs libc errno arguments defaultConfigSetting =
        (.success, config))
    (plain : config.aesFlag = false)
    (aes : Aes)
    (passes : Nat)
    (recoverable :
      ∀ earlier state,
        earlier < passes →
        generateChunk env encBuffer config aes earlier =
          .running state →
        state.guard = true →
        Recoverable env encBuffer state) :
    EveryOutput (FreshWords env.device)
      (generateChunk env encBuffer config aes passes).state.trace := by
  have split := (parseArgs_split parsed).1
  refine ChunkState.FreshSoFar.outputs
    (Loop.run_invariant
      (ChunkState.FreshSoFar env.device) passes
      ⟨everyOutput_nil, Nat.le_refl 0⟩ ?_ ?_)
  · intro earlier before after within run guarded pass fresh
    exact chunkPass_freshSoFar (chunkLoop_setup run)
      plain split.chunkBounded guarded
      (recoverable earlier before within run guarded) fresh pass
  · intro earlier before final exit within run guarded pass fresh
    exact chunkPass_leave_freshSoFar (chunkLoop_setup run)
      plain split.chunkBounded guarded
      (recoverable earlier before within run guarded) fresh pass

/-- On a device that never fails every pass is recoverable. -/
theorem recoverable_of_neverFails
    {config : Cnf}
    {state : ChunkState Aes}
    (neverFails : env.device.NeverFails)
    (split : config.Split)
    (realMethod : config.method ≠ .methodsCount)
    (setup : state.Setup config) :
    Recoverable env encBuffer state := by
  intro _ incomplete
  refine absurd (slicesComplete_of_neverFails neverFails ?_ ?_) incomplete
  · rw [setup.request.method]
    exact realMethod
  · rw [setup.request.chunkSize]
    exact split.chunkBounded

end Freshness

/-- The amount of 40000 bytes with one thread, on a device that never fails. -/
theorem generateChunk_words_fresh_counting :
    EveryOutput (FreshWords Device.counting)
      (generateChunk (.inOrder .counting) plainCopy
        (parseArgs LibC.decimal false
          [.amount "40000", .threads "1"] defaultConfigSetting).2
        () 3).state.trace := by
  have parsed :
      parseArgs LibC.decimal false
          [.amount "40000", .threads "1"] defaultConfigSetting =
        (.success,
          (parseArgs LibC.decimal false
            [.amount "40000", .threads "1"] defaultConfigSetting).2) := by
    decide
  have split := parseArgs_split parsed
  refine generateChunk_words_fresh parsed (by decide) () 3 ?_
  intro earlier state _ run _
  exact recoverable_of_neverFails Device.counting_neverFails split.1
    split.2 (chunkLoop_setup run)

/--
In unlimited mode, on a device that never delivers, the first pass writes the
buffer as the stack had it.
-/
theorem generateChunk_words_not_fresh :
    ∃ config,
      parseArgs LibC.decimal false [] defaultConfigSetting =
          (.success, config) ∧
        config.aesFlag = false ∧
        ¬ EveryOutput (FreshWords Device.broken)
          (generateChunk (.inOrder .broken) plainCopy
            config () 1).state.trace := by
  refine ⟨computeChunkSize defaultConfigSetting, by decide, rfl, ?_⟩
  intro fresh
  have unwanted :
      ¬ Underflows (.inOrder .broken) plainCopy
        (chunkStart (.inOrder .broken)
          (computeChunkSize defaultConfigSetting) ()) :=
    fun underflows => Nat.not_lt_zero 0 underflows.wanted
  have pass := chunkPass_proceeds (fun _ _ => rfl) unwanted
  rw [generateChunk, Loop.run_again rfl pass] at fresh
  have word := fresh _ _ _ _ _ [] rfl 0
  rw [CellMemory.window_length] at word
  obtain ⟨position, _, delivers, _⟩ := word (by decide)
  exact Device.broken_not_delivers position delivers

end RdRand
