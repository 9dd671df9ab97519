import RdRand.GenerateAmount

namespace RdRand

/-!
# Termination of the chunk loop

Each pass that asks for another one either counts up or gives up a thread, so
the loop ends after `chunk_count` passes, one more with AES, and one rerun for
each thread given up.  That is so as long as the `unsigned int` counter can
reach its bound; where it cannot, only a break ends the loop.
-/

open ControlLoop

section Pace

variable
  {Aes : Type}
  {env : Environment}
  {encBuffer : EncBuffer Aes}

/-- The threads given up so far. -/
def ChunkState.givenUp (config : Cnf) (state : ChunkState Aes) : Nat :=
  config.threads - state.config.threads

/--
The passes so far are those that were completed, counted by an `unsigned int`,
and one rerun for each thread given up.
-/
structure ChunkState.Paced
    (config : Cnf)
    (passes completed : Nat)
    (state : ChunkState Aes) : Prop where
  passes : passes = completed + state.givenUp config
  n : state.n = completed % uintModulus

/-- A pass leaves the loop by one of its breaks. -/
inductive Breaks
    (env : Environment)
    (encBuffer : EncBuffer Aes)
    (state : ChunkState Aes) : Prop where
  | hardwareProblem
      (underflows : Underflows env encBuffer state)
      (oneThread : state.config.threads = 1)
      (short : (state.slow env encBuffer).written ≠ state.bufSize)
  | shortWrite
      (filled :
        Underflows env encBuffer state →
        state.config.threads = 1 ∧
          (state.slow env encBuffer).written = state.bufSize)
      (writes : state.skipsWrite = false)
      (short :
        env.accepts state.writes state.bufSize ≠ state.bufSize)

/--
The loop ends, after at most `chunk_count + 1` completed passes and one rerun
for each thread given up.
-/
def EndsInTime
    (env : Environment)
    (encBuffer : EncBuffer Aes)
    (config : Cnf)
    (aes : Aes) : Prop :=
  ∃ completed state,
    completed ≤ config.chunkCount + 1 ∧
      generateChunk env encBuffer config aes
          (completed + state.givenUp config) =
        .running state ∧
      (generateChunk env encBuffer config aes
        (completed + state.givenUp config + 1)).ended = true

/-- Up to its finish a pass keeps whether it writes. -/
theorem Finishing.skipsWrite
    {state base : ChunkState Aes}
    (finishing : Finishing env encBuffer state base) :
    base.skipsWrite = state.skipsWrite := by
  have same := finishing.sameSetup
  simp [ChunkState.skipsWrite, same.request.aesFlag, same.firstRun]

/-- A pass leaves the loop exactly where it runs into a break. -/
theorem chunkPass_leaves_iff
    (state : ChunkState Aes) :
    (∃ exit final,
      chunkPass env encBuffer state = .leave exit final) ↔
      Breaks env encBuffer state := by
  constructor
  · rintro ⟨exit, final, pass⟩
    cases chunkPass_leave pass with
    | hardwareProblem underflows oneThread short =>
        exact .hardwareProblem underflows oneThread short
    | shortWrite base finishing writes short =>
        have same := finishing.sameSetup
        rw [finishing.skipsWrite] at writes
        rw [same.writes, same.bufSize] at short
        refine .shortWrite ?_ writes short
        intro underflows
        cases finishing with
        | region recovered =>
            exact absurd underflows recovered
        | refill _ oneThread whole =>
            exact ⟨oneThread, whole⟩
  · intro breaks
    cases next : chunkPass env encBuffer state with
    | leave exit final =>
        exact ⟨exit, final, rfl⟩
    | again next =>
        exfalso
        cases chunkPass_again next with
        | rerun underflows threads _ =>
            cases breaks with
            | hardwareProblem _ oneThread _ =>
                exact threads oneThread
            | shortWrite filled _ _ =>
                exact threads (filled underflows).1
        | finish base finishing whole _ =>
            have same := finishing.sameSetup
            cases breaks with
            | hardwareProblem underflows _ short =>
                cases finishing with
                | region recovered =>
                    exact recovered underflows
                | refill _ _ refilled =>
                    exact short refilled
            | shortWrite _ writes short =>
                rw [← finishing.skipsWrite] at writes
                rw [← same.writes, ← same.bufSize] at short
                exact short (whole writes)

/-- The loop starts with no pass completed. -/
theorem chunkStart_paced
    (config : Cnf)
    (aes : Aes) :
    (chunkStart env config aes).Paced config 0 0 where
  passes := by
    simp [ChunkState.givenUp, chunkStart]
  n := rfl

/-- A pass completes or gives up a thread. -/
theorem chunkPass_paced
    {config : Cnf}
    {passes completed : Nat}
    {state next : ChunkState Aes}
    (someThread : 1 ≤ config.threads)
    (setup : state.Setup config)
    (paced : state.Paced config passes completed)
    (pass : chunkPass env encBuffer state = .again next) :
    ∃ counted,
      completed ≤ counted ∧
        counted ≤ completed + 1 ∧
        next.Paced config (passes + 1) counted := by
  have positive := setup.threadsPositive someThread
  have bounded := setup.threadsBounded
  have total := paced.passes
  cases chunkPass_again pass with
  | rerun underflows threads result =>
      have fewer :
          next.config.threads = state.config.threads - 1 := by
        rw [result]
        rfl
      have sameN : next.n = state.n := by
        rw [result]
        exact increment_decrement setup.nBounded
      refine
        ⟨completed, Nat.le_refl _, Nat.le_succ _, ?_,
          sameN.trans paced.n⟩
      unfold ChunkState.givenUp at total ⊢
      omega
  | finish base finishing writes result =>
      have same := finishing.sameSetup
      have sameThreads :
          next.config.threads = state.config.threads := by
        rw [result, finished_config, same.threads]
      refine
        ⟨completed + 1, Nat.le_succ _, Nat.le_refl _, ?_, ?_⟩
      · unfold ChunkState.givenUp at total ⊢
        omega
      · rw [result, finished_n, same.n, paced.n,
          ChunkState.increment, Nat.mod_add_mod]

end Pace

section Termination

variable
  {Aes : Type}
  {env : Environment}
  {encBuffer : EncBuffer Aes}
  {config : Cnf}
  {aes : Aes}

/-- A counter that can reach its bound counts no more passes than that. -/
theorem chunkLoop_completed_le
    (split : config.Split)
    (finite : 0 < config.bytes)
    (countable :
      config.chunkCount + config.aesThread < uintModulus)
    {passes : Nat}
    {state : ChunkState Aes}
    (running :
      generateChunk env encBuffer config aes passes = .running state) :
    ∃ completed,
      completed ≤ config.chunkCount + config.aesThread ∧
        state.Paced config passes completed := by
  refine Loop.running_invariant
    (fun passes reached =>
      ∃ completed,
        completed ≤ config.chunkCount + config.aesThread ∧
          reached.Paced config passes completed)
    ⟨0, Nat.zero_le _, chunkStart_paced config aes⟩ ?_ running
  rintro count before after run guarded pass ⟨completed, within, paced⟩
  have setup := chunkLoop_setup run
  have below :=
    (setup.guard_iff finite split.passes_lt).mp guarded
  rw [paced.n, Nat.mod_eq_of_lt (Nat.lt_of_le_of_lt within countable)]
    at below
  obtain ⟨counted, _, atMost, next⟩ :=
    chunkPass_paced split.threadsPositive setup paced pass
  exact ⟨counted, by omega, next⟩

/-- A run that has ended was running just before it ended. -/
theorem generateChunk_ended
    {total : Nat}
    (ended :
      (generateChunk env encBuffer config aes total).ended = true) :
    ∃ passes state,
      generateChunk env encBuffer config aes passes = .running state ∧
        (state.guard = false ∨ Breaks env encBuffer state) := by
  cases status : generateChunk env encBuffer config aes total with
  | running current =>
      rw [status] at ended
      cases ended
  | finished final =>
      obtain ⟨passes, _, run, unguarded⟩ := Loop.finished_reached status
      exact ⟨passes, final, run, .inl unguarded⟩
  | left exit final =>
      obtain ⟨passes, before, _, run, _, pass⟩ :=
        Loop.left_reached status
      exact
        ⟨passes, before, run,
          .inr ((chunkPass_leaves_iff before).mp ⟨exit, final, pass⟩)⟩

/-- Where the guard fails or the pass breaks, the next pass ends the run. -/
theorem generateChunk_ends
    {passes : Nat}
    {state : ChunkState Aes}
    (running :
      generateChunk env encBuffer config aes passes = .running state)
    (last : state.guard = false ∨ Breaks env encBuffer state) :
    (generateChunk env encBuffer config aes (passes + 1)).ended =
      true := by
  cases guarded : state.guard with
  | false =>
      rw [generateChunk, Loop.run_snoc_finished running guarded]
      rfl
  | true =>
      have breaks : Breaks env encBuffer state :=
        last.resolve_left (by simp [guarded])
      obtain ⟨exit, final, pass⟩ :=
        (chunkPass_leaves_iff state).mpr breaks
      rw [generateChunk, Loop.run_add running,
        Loop.run_leave guarded pass]
      rfl

/-- Where the counter can reach its bound, the loop ends in time. -/
theorem generateChunk_endsInTime
    (env : Environment)
    (encBuffer : EncBuffer Aes)
    (split : config.Split)
    (finite : 0 < config.bytes)
    (countable :
      config.chunkCount + config.aesThread < uintModulus)
    (aes : Aes) :
    EndsInTime env encBuffer config aes := by
  have thread := config.aesThread_le
  have ended :
      (generateChunk env encBuffer config aes
        (config.chunkCount + config.aesThread +
          config.threads)).ended = true := by
    cases status :
        generateChunk env encBuffer config aes
          (config.chunkCount + config.aesThread + config.threads) with
    | running state =>
        obtain ⟨completed, within, paced⟩ :=
          chunkLoop_completed_le split finite countable status
        have total := paced.passes
        have positive :=
          (chunkLoop_setup status).threadsPositive
            split.threadsPositive
        have some := split.threadsPositive
        unfold ChunkState.givenUp at total
        omega
    | finished final =>
        rfl
    | left exit final =>
        rfl
  obtain ⟨passes, state, running, last⟩ := generateChunk_ended ended
  obtain ⟨completed, within, paced⟩ :=
    chunkLoop_completed_le split finite countable running
  have ends := generateChunk_ends running last
  rw [paced.passes] at running ends
  exact ⟨completed, state, by omega, running, ends⟩

/-- Without failures a counter that cannot reach its bound runs on for ever. -/
theorem generateChunk_overruns
    (encBuffer : EncBuffer Aes)
    (reliable : env.Reliable)
    (split : config.Split)
    (realMethod : config.method ≠ .methodsCount)
    (finite : 0 < config.bytes)
    (aes : Aes)
    (uncountable :
      uintModulus ≤ config.chunkCount + config.aesThread) :
    ¬ EndsInTime env encBuffer config aes := by
  rintro ⟨completed, state, _, _, ended⟩
  obtain ⟨later, running, _⟩ :=
    generateChunk_steady encBuffer reliable split realMethod finite aes
      (completed + state.givenUp config + 1)
      (fun earlier _ =>
        Nat.lt_of_lt_of_le (Nat.mod_lt earlier (by decide)) uncountable)
  rw [running] at ended
  cases ended

/--
The chunk loop ends in time, on a device and under writes of any kind, if and
only if its `unsigned int` counter can reach the bound, or else one of its
first passes runs into a break.  Where neither the device nor a write fails,
no pass does, and the counter alone decides.
-/
theorem generateChunk_endsInTime_iff
    {libc : LibC}
    {errno : Bool}
    {arguments : List Argument}
    (parsed :
      parseArgs libc errno arguments defaultConfigSetting =
        (.success, config))
    (finite : 0 < config.bytes)
    (env : Environment)
    (encBuffer : EncBuffer Aes)
    (aes : Aes) :
    (EndsInTime env encBuffer config aes ↔
      config.bytes / 8 / (maxChunkSize * config.threads) +
          config.aesThread < uintModulus ∨
        ∃ completed state,
          completed ≤ config.chunkCount + 1 ∧
            generateChunk env encBuffer config aes
                (completed + state.givenUp config) =
              .running state ∧
            Breaks env encBuffer state) ∧
      (env.Reliable →
        (EndsInTime env encBuffer config aes ↔
          config.bytes / 8 / (maxChunkSize * config.threads) +
            config.aesThread < uintModulus)) := by
  obtain ⟨split, realMethod⟩ := parseArgs_split parsed
  rw [← split.passes_lt_iff]
  refine ⟨⟨?_, ?_⟩, fun reliable => ⟨?_, ?_⟩⟩
  · rintro ⟨completed, state, inTime, running, ended⟩
    by_cases countable :
        config.chunkCount + config.aesThread < uintModulus
    · exact .inl countable
    · refine .inr ⟨completed, state, inTime, running, ?_⟩
      have setup := chunkLoop_setup running
      have guarded : state.guard = true := by
        rw [setup.guard_iff finite split.passes_lt]
        exact
          Nat.lt_of_lt_of_le setup.nBounded (Nat.not_lt.mp countable)
      apply (chunkPass_leaves_iff state).mp
      rw [generateChunk, Loop.run_add running] at ended
      cases pass : chunkPass env encBuffer state with
      | again next =>
          rw [Loop.run_again guarded pass] at ended
          cases ended
      | leave exit final =>
          exact ⟨exit, final, rfl⟩
  · rintro (countable | ⟨completed, state, inTime, running, breaks⟩)
    · exact
        generateChunk_endsInTime env encBuffer split finite countable
          aes
    · exact
        ⟨completed, state, inTime, running,
          generateChunk_ends running (.inr breaks)⟩
  · intro inTime
    refine Nat.lt_of_not_le ?_
    intro uncountable
    exact
      generateChunk_overruns encBuffer reliable split realMethod finite
        aes uncountable inTime
  · intro countable
    exact
      generateChunk_endsInTime env encBuffer split finite countable aes

end Termination

/--
Thirty-two bytes with two threads: on a device that is late, and in time on
one that never fails.
-/
theorem generateChunk_endsInTime_lateBy :
    ∃ config,
      parseArgs LibC.decimal false
          [.amount "32", .threads "2"] defaultConfigSetting =
        (.success, config) ∧
      (EndsInTime (.inOrder (.lateBy 10)) plainCopy config () ↔
        config.bytes / 8 / (maxChunkSize * config.threads) +
            config.aesThread < uintModulus ∨
          ∃ completed state,
            completed ≤ config.chunkCount + 1 ∧
              generateChunk (.inOrder (.lateBy 10)) plainCopy config ()
                  (completed + state.givenUp config) =
                .running state ∧
              Breaks (.inOrder (.lateBy 10)) plainCopy state) ∧
      EndsInTime (.inOrder .counting) plainCopy config () := by
  have parsed :
      parseArgs LibC.decimal false
          [.amount "32", .threads "2"] defaultConfigSetting =
        (.success,
          (parseArgs LibC.decimal false
            [.amount "32", .threads "2"] defaultConfigSetting).2) := by
    decide
  have reliable : (Environment.inOrder .counting).Reliable :=
    ⟨Device.counting_neverFails, fun _ _ => rfl⟩
  have late :=
    generateChunk_endsInTime_iff parsed (by decide)
      (.inOrder (.lateBy 10)) plainCopy ()
  have never :=
    generateChunk_endsInTime_iff parsed (by decide)
      (.inOrder .counting) plainCopy ()
  exact ⟨_, parsed, late.1, (never.2 reliable).mpr (by decide)⟩

/--
The amount 64T for one thread takes 2^32 chunks, and the loop does not end on
a device that never fails.
-/
theorem generateChunk_not_endsInTime :
    ∃ config,
      parseArgs LibC.decimal false
          [.amount "70368744177664", .threads "1"]
          defaultConfigSetting =
        (.success, config) ∧
      config.bytes = 64 * 2 ^ 40 ∧
      config.chunkCount = 2 ^ 32 ∧
      ¬ EndsInTime (.inOrder .counting) plainCopy config () := by
  have parsed :
      parseArgs LibC.decimal false
          [.amount "70368744177664", .threads "1"]
          defaultConfigSetting =
        (.success,
          (parseArgs LibC.decimal false
            [.amount "70368744177664", .threads "1"]
            defaultConfigSetting).2) := by
    decide
  obtain ⟨split, realMethod⟩ := parseArgs_split parsed
  have reliable : (Environment.inOrder .counting).Reliable :=
    ⟨Device.counting_neverFails, fun _ _ => rfl⟩
  exact
    ⟨_, parsed, by decide, by decide,
      generateChunk_overruns plainCopy reliable split realMethod
        (by decide) () (by decide)⟩

end RdRand
