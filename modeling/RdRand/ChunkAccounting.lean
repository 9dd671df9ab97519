import RdRand.ChunkProgress
import RdRand.ParseArgs

namespace RdRand

/-!
# Accounting for lowered threads

`chunk_count` is computed for the threads the run starts with.  A run that
lowers its threads still makes `chunk_count` passes, each with a smaller
buffer, so it writes the requested amount exactly when no pass ever lowers
them.
-/

open ControlLoop

section Accounting

variable
  {Aes : Type}
  {env : Environment}
  {encBuffer : EncBuffer Aes}

/--
The bytes written so far, against the full rounds of the passes counted: all
of them as long as no thread is lowered, and fewer once one is and the pass
that lowered it has been made up.
-/
structure ChunkState.Accounted
    (config : Cnf)
    (state : ChunkState Aes) : Prop where
  counted : state.n ≤ config.chunkCount
  full :
    state.config.threads = config.threads →
    outputLength state.trace = config.roundBytes * state.n
  lowered :
    state.config.threads < config.threads →
    outputLength state.trace < config.roundBytes * state.n ∨
      state.n < config.chunkCount ∧
        outputLength state.trace ≤ config.roundBytes * state.n

/-- Nothing is written before the first pass. -/
theorem chunkStart_accounted
    (config : Cnf)
    (aes : Aes) :
    (chunkStart env config aes).Accounted config where
  counted := Nat.zero_le _
  full := by
    intro _
    rfl
  lowered := by
    intro lowered
    exact absurd lowered (Nat.lt_irrefl config.threads)

/-- The passes of a finite loop without AES are wanted. -/
theorem wanted_of_guard
    {config : Cnf}
    {state : ChunkState Aes}
    (setup : state.Setup config)
    (plain : config.aesFlag = false)
    (finite : 0 < config.bytes)
    (guarded : state.guard = true) :
    state.n < config.chunkCount := by
  have statePlain : state.config.aesFlag = false := by
    rw [setup.request.aesFlag, plain]
  have generates := generates_of_guard statePlain guarded
  have noLimit : state.config.bytes ≠ 0 := by
    rw [setup.request.bytes]
    omega
  simpa [ChunkState.generates, noLimit, setup.request.chunkCount]
    using generates

/-- A pass to be made up for with a thread less keeps the accounting. -/
theorem ChunkState.Accounted.lowerThreads
    {config : Cnf}
    {state next : ChunkState Aes}
    (accounted : state.Accounted config)
    (wanted : state.n < config.chunkCount)
    (positive : 1 ≤ state.config.threads)
    (bounded : state.config.threads ≤ config.threads)
    (sameN : next.n = state.n)
    (sameOutput : outputLength next.trace = outputLength state.trace)
    (fewer : next.config.threads = state.config.threads - 1) :
    next.Accounted config := by
  have atMost :
      outputLength state.trace ≤ config.roundBytes * state.n := by
    by_cases initial : state.config.threads = config.threads
    · exact Nat.le_of_eq (accounted.full initial)
    · rcases accounted.lowered (by omega) with less | ⟨_, atMost⟩
      · exact Nat.le_of_lt less
      · exact atMost
  refine ⟨?_, ?_, ?_⟩
  · rw [sameN]
    exact accounted.counted
  · intro initial
    omega
  · intro _
    rw [sameN, sameOutput]
    exact .inr ⟨wanted, atMost⟩

/-- A pass that writes what its threads generate keeps the accounting. -/
theorem ChunkState.Accounted.writeChunk
    {config : Cnf}
    {state next : ChunkState Aes}
    (accounted : state.Accounted config)
    (wanted : state.n < config.chunkCount)
    (chunkPositive : 0 < config.chunkSize)
    (nextN : next.n = state.n + 1)
    (sameThreads : next.config.threads = state.config.threads)
    (output :
      outputLength next.trace =
        outputLength state.trace +
          8 * (config.chunkSize * state.config.threads)) :
    next.Accounted config := by
  refine ⟨?_, ?_, ?_⟩
  · omega
  · intro initial
    rw [sameThreads] at initial
    rw [output, nextN, Nat.mul_succ, accounted.full initial, initial]
    rfl
  · intro lowered
    rw [sameThreads] at lowered
    have smaller :
        8 * (config.chunkSize * state.config.threads) <
          config.roundBytes := by
      have less := Nat.mul_lt_mul_of_pos_left lowered chunkPositive
      unfold Cnf.roundBytes
      omega
    rw [output, nextN, Nat.mul_succ]
    left
    rcases accounted.lowered lowered with less | ⟨_, atMost⟩
    · omega
    · omega

/-- Every pass keeps the accounting. -/
theorem chunkPass_accounted
    (writesAll : env.WritesAll)
    {config : Cnf}
    {state next : ChunkState Aes}
    (split : config.Split)
    (plain : config.aesFlag = false)
    (finite : 0 < config.bytes)
    (countSmall : config.chunkCount < uintModulus)
    (setup : state.Setup config)
    (guarded : state.guard = true)
    (accounted : state.Accounted config)
    (pass : chunkPass env encBuffer state = .again next) :
    next.Accounted config := by
  have wanted := wanted_of_guard setup plain finite guarded
  cases chunkPass_again pass with
  | rerun underflows threads result =>
      have sameN : next.n = state.n := by
        rw [result]
        exact increment_decrement setup.nBounded
      have sameOutput :
          outputLength next.trace = outputLength state.trace := by
        rw [result]
        exact congrArg List.length (parallelFor_outputCells setup.arrays)
      have fewer :
          next.config.threads = state.config.threads - 1 := by
        rw [result]
        rfl
      exact
        accounted.lowerThreads wanted
          (setup.threadsPositive split.threadsPositive)
          setup.threadsBounded sameN sameOutput fewer
  | finish base finishing writes result =>
      have same := finishing.sameSetup
      have nextN : next.n = state.n + 1 := by
        rw [result, finished_n, same.n, ChunkState.increment]
        exact Nat.mod_eq_of_lt (by omega)
      have sameThreads :
          next.config.threads = state.config.threads := by
        rw [result, finished_config, same.threads]
      have writesBuffer : ¬state.skipsWrite = true := by
        simp [ChunkState.skipsWrite, setup.request.aesFlag, plain]
      have output :
          outputLength next.trace =
            outputLength state.trace +
              8 * (config.chunkSize * state.config.threads) := by
        have length := finishing.outputLength writesAll setup.arrays
        rw [if_neg writesBuffer, setup.arrays.size,
          setup.request.chunkSize] at length
        rw [result]
        exact length
      have chunkPositive : 0 < config.chunkSize := by
        by_contra noChunk
        have noRounds := split.noRounds (by omega)
        omega
      exact
        accounted.writeChunk wanted chunkPositive nextN sameThreads output

/-- Every state that a run of a finite loop reaches is accounted for. -/
theorem chunkLoop_accounted
    (writesAll : env.WritesAll)
    {config : Cnf}
    (split : config.Split)
    (plain : config.aesFlag = false)
    (finite : 0 < config.bytes)
    (countSmall : config.chunkCount < uintModulus)
    {aes : Aes}
    {passes : Nat}
    {state : ChunkState Aes}
    (running :
      generateChunk env encBuffer config aes passes = .running state) :
    state.Accounted config :=
  Loop.running_invariant
    (fun _ reached => reached.Accounted config)
    (chunkStart_accounted config aes)
    (fun run guarded pass accounted =>
      chunkPass_accounted writesAll split plain finite countSmall
        (chunkLoop_setup run) guarded accounted pass)
    running

/-- No pass raises the number of threads. -/
theorem chunkPass_threads_le
    {state next : ChunkState Aes}
    (pass : chunkPass env encBuffer state = .again next) :
    next.config.threads ≤ state.config.threads := by
  cases chunkPass_again pass with
  | rerun underflows threads result =>
      rw [result]
      exact Nat.sub_le _ 1
  | finish base finishing writes result =>
      rw [result, finished_config, finishing.sameSetup.threads]

/-- No run raises the number of threads. -/
theorem run_threads_le
    {passes : Nat}
    {state reached : ChunkState Aes}
    (running :
      (chunkLoop env encBuffer).run passes state = .running reached) :
    reached.config.threads ≤ state.config.threads :=
  Loop.running_invariant
    (fun _ later => later.config.threads ≤ state.config.threads)
    (Nat.le_refl _)
    (fun _ _ pass le => Nat.le_trans (chunkPass_threads_le pass) le)
    running

/-- Passes that the device fills with several threads lower none. -/
theorem chunkLoop_threads
    {config : Cnf}
    {aes : Aes}
    (complete :
      ∀ passes state,
        generateChunk env encBuffer config aes passes =
          .running state →
        state.guard = true →
        state.config.threads ≠ 1 →
        SlicesComplete env encBuffer state)
    {passes : Nat}
    {state : ChunkState Aes}
    (running :
      generateChunk env encBuffer config aes passes = .running state) :
    state.config.threads = config.threads := by
  refine Loop.running_invariant
    (fun _ reached => reached.config.threads = config.threads)
    rfl ?_ running
  intro count before after run guarded pass same
  have setup := chunkLoop_setup run
  cases chunkPass_again pass with
  | rerun underflows threads result =>
      have filled := complete count before run guarded threads
      exact absurd underflows
        (not_underflows setup.arrays fun _ => filled)
  | finish base finishing writes result =>
      rw [result, finished_config, finishing.sameSetup.threads, same]

/-- A finished run that ends with all its threads never underflowed. -/
theorem slicesComplete_of_threads
    {config : Cnf}
    (split : config.Split)
    (plain : config.aesFlag = false)
    (finite : 0 < config.bytes)
    {aes : Aes}
    {total passes : Nat}
    {final state : ChunkState Aes}
    (reaches :
      generateChunk env encBuffer config aes total = .running final)
    (unguarded : final.guard = false)
    (allThreads : final.config.threads = config.threads)
    (running :
      generateChunk env encBuffer config aes passes = .running state)
    (guarded : state.guard = true)
    (threads : state.config.threads ≠ 1) :
    SlicesComplete env encBuffer state := by
  by_contra incomplete
  have setup := chunkLoop_setup running
  have wanted : state.n < state.config.chunkCount := by
    rw [setup.request.chunkCount]
    exact wanted_of_guard setup plain finite guarded
  have underflows :=
    underflows_of_incomplete setup.arrays wanted incomplete
  cases chunkPass_cases env encBuffer state with
  | giveUp _ oneThread short pass =>
      exact threads oneThread
  | finish base finishing pass =>
      cases finishing with
      | region recovered =>
          exact recovered underflows
      | refill _ oneThread whole =>
          exact threads oneThread
  | rerun _ _ pass =>
      obtain ⟨more, rfl⟩ :=
        Nat.exists_eq_add_of_lt
          (Loop.passes_lt_of_guard running guarded reaches unguarded)
      rw [Nat.add_assoc, generateChunk, Loop.run_add running,
        Loop.run_again guarded pass] at reaches
      have fewer := run_threads_le reaches
      change final.config.threads ≤ state.config.threads - 1 at fewer
      have bounded := setup.threadsBounded
      have positive := setup.threadsPositive split.threadsPositive
      omega

/-- A plain run that stops has counted all the chunks. -/
theorem chunkCount_le_of_unguarded
    {config : Cnf}
    (split : config.Split)
    (plain : config.aesFlag = false)
    {state : ChunkState Aes}
    (setup : state.Setup config)
    (unguarded : state.guard = false) :
    config.chunkCount ≤ state.n := by
  have countBounded : config.chunkCount < sizeModulus := by
    have le := split.chunkCount_le
    have bounded := split.bytesBounded
    omega
  have statePlain : state.config.aesFlag = false := by
    rw [setup.request.aesFlag, plain]
  simp only [ChunkState.guard, Bool.or_eq_false_iff,
    decide_eq_false_iff_not, Cnf.aesThread, statePlain,
    Bool.false_eq_true, if_false, Nat.add_zero,
    setup.request.chunkCount, Nat.mod_eq_of_lt countBounded]
    at unguarded
  omega

/-- All the chunks are in the output as long as no thread was lowered. -/
theorem ChunkState.Accounted.whole_iff
    {config : Cnf}
    {state : ChunkState Aes}
    (accounted : state.Accounted config)
    (setup : state.Setup config)
    (counted : config.chunkCount ≤ state.n) :
    outputLength state.trace = config.roundBytes * config.chunkCount ↔
      state.config.threads = config.threads := by
  have all : state.n = config.chunkCount :=
    Nat.le_antisymm accounted.counted counted
  have bounded := setup.threadsBounded
  constructor
  · intro whole
    by_contra fewer
    rcases accounted.lowered (by omega) with less | ⟨less, _⟩
    · rw [all] at less
      omega
    · omega
  · intro same
    rw [accounted.full same, all]

/-- What a complete ending adds to the output. -/
theorem generateEnding_outputLength
    {state : ChunkState Aes}
    (complete : (generateEnding env encBuffer state).exit = .complete)
    (plain : state.config.aesFlag = false) :
    outputLength (generateEnding env encBuffer state).trace =
      outputLength state.trace + state.config.endingBytes := by
  unfold generateEnding at complete ⊢
  simp only [plain, Bool.false_eq_true, if_false] at complete ⊢
  split at complete
  · cases complete
  · next generated =>
      rw [if_neg generated]
      simp only at complete
      split at complete
      · cases complete
      · next accepted =>
          simp only [not_not] at accepted
          simp [outputLength, accepted]

/--
Without AES a run that ends regularly, under complete writes, has written the
requested amount if and only if no pass with several threads ever found a
slice that the device did not fill.
-/
theorem generate_writes_amount_iff
    {libc : LibC}
    {errno : Bool}
    {arguments : List Argument}
    {config : Cnf}
    (parsed :
      parseArgs libc errno arguments defaultConfigSetting =
        (.success, config))
    (plain : config.aesFlag = false)
    (finite : 0 < config.bytes)
    (writesAll : env.WritesAll)
    (aes : Aes)
    {passes : Nat}
    {generated : Generated Aes}
    (ended :
      generate env encBuffer config aes passes = some generated)
    (noProblem : generated.chunkExit ≠ some .hardwareProblem)
    (ending : generated.endingExit = .complete) :
    (outputCells generated.trace).length = config.bytes ↔
      ∀ earlier state,
        generateChunk env encBuffer config aes earlier =
          .running state →
        state.guard = true →
        state.config.threads ≠ 1 →
        SlicesComplete env encBuffer state := by
  have split := (parseArgs_split parsed).1
  unfold generate at ended
  cases status : generateChunk env encBuffer config aes passes with
  | running current =>
      simp [status] at ended
  | left exit final =>
      simp only [status, Option.some.injEq] at ended
      subst generated
      obtain ⟨earlier, before, _, run, _, pass⟩ :=
        Loop.left_reached status
      cases chunkPass_leave pass with
      | hardwareProblem underflows oneThread short =>
          exact absurd rfl noProblem
      | shortWrite base finishing writes short =>
          exact absurd (writesAll _ _) short
  | finished final =>
      simp only [status, Option.some.injEq] at ended
      subst generated
      obtain ⟨total, _, run, unguarded⟩ := Loop.finished_reached status
      have setup := chunkLoop_setup run
      have finalPlain : final.config.aesFlag = false := by
        rw [setup.request.aesFlag, plain]
      have counted : config.chunkCount ≤ final.n :=
        chunkCount_le_of_unguarded split plain setup unguarded
      have countSmall : config.chunkCount < uintModulus :=
        Nat.lt_of_le_of_lt counted setup.nBounded
      have accounted :=
        chunkLoop_accounted writesAll split plain finite countSmall run
      have length :
          (outputCells
            (finishGenerate env encBuffer none final).trace).length =
            outputLength final.trace + config.endingBytes := by
        rw [← setup.request.endingBytes]
        exact generateEnding_outputLength ending finalPlain
      rw [length, ← split.exactly finite, Nat.add_right_cancel_iff,
        accounted.whole_iff setup counted]
      constructor
      · intro allThreads earlier state running guarded threads
        exact slicesComplete_of_threads split plain finite run
          unguarded allThreads running guarded threads
      · intro complete
        exact chunkLoop_threads complete run

end Accounting

/--
Two rounds of two threads and an ending, on a device of which every third step
fails and is retried.
-/
theorem generate_writes_amount_iff_counting :
    ∃ config generated,
      parseArgs LibC.decimal false
          [.amount "70000", .threads "2"] defaultConfigSetting =
        (.success, config) ∧
      config.chunkCount = 2 ∧
      generate (.inOrder .stumbling) plainCopy config () 4 =
        some generated ∧
      ((outputCells generated.trace).length = config.bytes ↔
        ∀ earlier state,
          generateChunk (.inOrder .stumbling) plainCopy config ()
            earlier = .running state →
          state.guard = true →
          state.config.threads ≠ 1 →
          SlicesComplete (.inOrder .stumbling) plainCopy state) := by
  have parsed :
      parseArgs LibC.decimal false
          [.amount "70000", .threads "2"] defaultConfigSetting =
        (.success,
          (parseArgs LibC.decimal false
            [.amount "70000", .threads "2"]
            defaultConfigSetting).2) := by
    decide
  have exits :
      (generate (.inOrder .stumbling) plainCopy
        (parseArgs LibC.decimal false
          [.amount "70000", .threads "2"]
          defaultConfigSetting).2 () 4).map
        (fun generated => (generated.chunkExit, generated.endingExit)) =
      some (none, .complete) := by
    decide +kernel
  obtain ⟨generated, ended, regular⟩ := Option.map_eq_some_iff.mp exits
  obtain ⟨chunkExit, endingExit⟩ := Prod.mk.inj regular
  refine ⟨_, generated, parsed, by decide, ended, ?_⟩
  exact generate_writes_amount_iff parsed (by decide) (by decide)
    (fun _ _ => rfl) () ended (by simp [chunkExit]) endingExit

/--
With 32 bytes for two threads and ten failing steps at first, one thread is
given up, the run ends regularly, and half of the amount is written.
-/
theorem generate_loses_amount :
    (parseArgs LibC.decimal false
      [.amount "32", .threads "2"] defaultConfigSetting).1 = .success ∧
    (parseArgs LibC.decimal false
      [.amount "32", .threads "2"] defaultConfigSetting).2.bytes = 32 ∧
    (generate (.inOrder (.lateBy 10)) plainCopy
      (parseArgs LibC.decimal false
        [.amount "32", .threads "2"] defaultConfigSetting).2 () 4).map
      (fun generated =>
        (generated.chunkExit, generated.endingExit,
          (outputCells generated.trace).length)) =
      some (none, .complete, 16) := by
  refine ⟨by decide, by decide, ?_⟩
  decide +kernel

end RdRand
