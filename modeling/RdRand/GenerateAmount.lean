import RdRand.ChunkAccounting

namespace RdRand

/-!
# The amount generated without failures

On a device that never fails, and with complete writes, every pass of the
chunk loop proceeds.  The loop ends as long as the `unsigned int` counter can
reach its bound, and the ending is written unless the method rounds it down
to whole words.
-/

open ControlLoop

section Steady

variable
  {Aes : Type}
  {env : Environment}
  {encBuffer : EncBuffer Aes}

/-- What never fails: the device and `fwrite`. -/
structure Environment.Reliable (env : Environment) : Prop where
  neverFails : env.device.NeverFails
  writesAll : env.WritesAll

/-- On a device that never fails no pass underflows. -/
theorem not_underflows_of_neverFails
    {config : Cnf}
    {state : ChunkState Aes}
    (neverFails : env.device.NeverFails)
    (split : config.Split)
    (realMethod : config.method ≠ .methodsCount)
    (setup : state.Setup config) :
    ¬ Underflows env encBuffer state := by
  apply not_underflows setup.arrays
  intro _
  apply slicesComplete_of_neverFails neverFails
  · rw [setup.request.method]
    exact realMethod
  · rw [setup.request.chunkSize]
    exact split.chunkBounded

/-- As long as the counter stays below its bound, the loop goes on. -/
theorem generateChunk_steady
    (encBuffer : EncBuffer Aes)
    (reliable : env.Reliable)
    {config : Cnf}
    (split : config.Split)
    (realMethod : config.method ≠ .methodsCount)
    (finite : 0 < config.bytes)
    (aes : Aes)
    (passes : Nat)
    (below :
      ∀ earlier,
        earlier < passes →
        earlier % uintModulus < config.chunkCount + config.aesThread) :
    ∃ state,
      generateChunk env encBuffer config aes passes = .running state ∧
        state.Steady config passes := by
  induction passes with
  | zero =>
      exact ⟨_, rfl, chunkStart_steady config aes⟩
  | succ passes inductionHypothesis =>
      obtain ⟨state, running, steady⟩ :=
        inductionHypothesis
          (fun earlier less => below earlier (Nat.lt_succ_of_lt less))
      have recovered :
          ¬ Underflows env encBuffer state :=
        not_underflows_of_neverFails reliable.neverFails split
          realMethod steady.setup
      have guarded : state.guard = true := by
        rw [steady.setup.guard_iff finite split.passes_lt, steady.n]
        exact below passes (Nat.lt_succ_self passes)
      exact
        ⟨_,
          Loop.run_snoc running guarded
            (chunkPass_proceeds reliable.writesAll recovered),
          chunkPass_steady reliable.writesAll recovered steady⟩

/-- Where the counter reaches its bound, the loop ends. -/
theorem generateChunk_finished
    (encBuffer : EncBuffer Aes)
    (reliable : env.Reliable)
    {config : Cnf}
    (split : config.Split)
    (realMethod : config.method ≠ .methodsCount)
    (finite : 0 < config.bytes)
    (aes : Aes)
    (countable :
      config.chunkCount + config.aesThread < uintModulus) :
    ∃ state,
      generateChunk env encBuffer config aes
          (config.chunkCount + config.aesThread + 1) =
        .finished state ∧
        state.Steady config (config.chunkCount + config.aesThread) := by
  obtain ⟨state, running, steady⟩ :=
    generateChunk_steady encBuffer reliable split
      realMethod finite aes (config.chunkCount + config.aesThread) (by
        intro earlier less
        rwa [Nat.mod_eq_of_lt (Nat.lt_trans less countable)])
  have unguarded : state.guard = false := by
    rw [← Bool.not_eq_true, steady.setup.guard_iff finite split.passes_lt,
      steady.n, Nat.mod_eq_of_lt countable]
    exact Nat.lt_irrefl _
  exact ⟨state, Loop.run_snoc_finished running unguarded, steady⟩

/-- Where the counter cannot reach its bound, the loop never ends. -/
theorem generateChunk_endless
    (encBuffer : EncBuffer Aes)
    (reliable : env.Reliable)
    {config : Cnf}
    (split : config.Split)
    (realMethod : config.method ≠ .methodsCount)
    (finite : 0 < config.bytes)
    (aes : Aes)
    (uncountable :
      uintModulus ≤ config.chunkCount + config.aesThread)
    (passes : Nat) :
    generate env encBuffer config aes passes = none := by
  obtain ⟨state, running, _⟩ :=
    generateChunk_steady encBuffer reliable split
      realMethod finite aes passes
      (fun earlier _ =>
        Nat.lt_of_lt_of_le (Nat.mod_lt earlier (by decide)) uncountable)
  simp [generate, running]

/-- What the ending generates without failures. -/
theorem ending_generated
    (neverFails : env.device.NeverFails)
    {config : Cnf}
    (split : config.Split)
    (realMethod : config.method ≠ .methodsCount)
    {state : ChunkState Aes}
    (setup : state.Setup config) :
    (generateWithMetod env.device state.config env.endingAddress
      (state.config.endingBytes % uintModulus) retryLimit
      state.position).generated =
        if config.method = .getBytes then
          config.endingBytes
        else
          8 * (config.endingBytes / 8) := by
  have stateMethod : state.config.method ≠ .methodsCount := by
    rw [setup.request.method]
    exact realMethod
  rw [generateWithMetod_generated neverFails stateMethod _
      (Nat.mod_lt _ (by decide)),
    setup.request.method, setup.request.endingBytes,
    Nat.mod_eq_of_lt split.endingBytes_lt]

/-- The ending is generated whole unless it is rounded down to words. -/
theorem ending_whole_iff
    (neverFails : env.device.NeverFails)
    {config : Cnf}
    (split : config.Split)
    (realMethod : config.method ≠ .methodsCount)
    {state : ChunkState Aes}
    (setup : state.Setup config) :
    (generateWithMetod env.device state.config env.endingAddress
      (state.config.endingBytes % uintModulus) retryLimit
      state.position).generated = state.config.endingBytes ↔
        config.method = .getBytes ∨ config.endingBytes % 8 = 0 := by
  rw [ending_generated neverFails split realMethod setup,
    setup.request.endingBytes]
  by_cases bytes : config.method = .getBytes
  · simp [bytes]
  · rw [if_neg bytes, or_iff_right bytes]
    omega

/-- What a complete ending returns and adds to the output. -/
theorem generateEnding_complete
    (encBuffer : EncBuffer Aes)
    (writesAll : env.WritesAll)
    {state : ChunkState Aes}
    (generated :
      (generateWithMetod env.device state.config env.endingAddress
        (state.config.endingBytes % uintModulus) retryLimit
        state.position).generated = state.config.endingBytes) :
    (generateEnding env encBuffer state).returned =
        state.config.endingBytes ∧
      outputLength (generateEnding env encBuffer state).trace =
        outputLength state.trace + state.config.endingBytes := by
  have whole := writesAll state.writes state.config.endingBytes
  unfold generateEnding
  simp only
  rw [if_neg (not_not.mpr generated)]
  refine ⟨whole, ?_⟩
  simp only [whole, outputLength]
  cases state.config.aesFlag <;> simp

/-- An ending that comes short writes nothing. -/
theorem generateEnding_short
    (encBuffer : EncBuffer Aes)
    {state : ChunkState Aes}
    (short :
      (generateWithMetod env.device state.config env.endingAddress
        (state.config.endingBytes % uintModulus) retryLimit
        state.position).generated ≠ state.config.endingBytes) :
    (generateEnding env encBuffer state).trace = state.trace := by
  unfold generateEnding
  simp only
  rw [if_pos short]

/-- The full rounds of a finished run, in `size_t` arithmetic. -/
theorem steady_returned
    {config : Cnf}
    (split : config.Split)
    (finite : 0 < config.bytes)
    {state : ChunkState Aes}
    (steady :
      state.Steady config (config.chunkCount + config.aesThread)) :
    (state.writtenTotal * 8 % sizeModulus + config.endingBytes) %
      sizeModulus = config.bytes := by
  have exactly := split.exactly finite
  have bounded := split.bytesBounded
  have rounds :
      state.writtenTotal * 8 % sizeModulus =
        config.roundBytes * config.chunkCount := by
    rw [steady.writtenTotal, Nat.add_sub_cancel, Nat.mod_mul_mod,
      Nat.mul_right_comm, Nat.mul_comm _ 8]
    exact Nat.mod_eq_of_lt (by unfold Cnf.roundBytes at exactly; omega)
  rw [rounds, exactly, Nat.mod_eq_of_lt bounded]

/-- A finished run writes the amount unless its ending is rounded down. -/
theorem steady_writes_iff
    (encBuffer : EncBuffer Aes)
    (reliable : env.Reliable)
    {config : Cnf}
    (split : config.Split)
    (realMethod : config.method ≠ .methodsCount)
    (finite : 0 < config.bytes)
    {state : ChunkState Aes}
    (steady :
      state.Steady config (config.chunkCount + config.aesThread)) :
    (outputCells
        (finishGenerate env encBuffer none state).trace).length =
          config.bytes ↔
      config.method = .getBytes ∨ config.endingBytes % 8 = 0 := by
  have exactly := split.exactly finite
  have rounds := steady.output
  rw [Nat.add_sub_cancel] at rounds
  have whole :=
    ending_whole_iff reliable.neverFails split realMethod steady.setup
  constructor
  · intro length
    by_contra neither
    have short := mt whole.mp neither
    obtain ⟨_, someRest⟩ := not_or.mp neither
    simp only [finishGenerate, generateEnding_short encBuffer short]
      at length
    unfold outputLength at rounds
    omega
  · intro method
    have length :=
      (generateEnding_complete encBuffer reliable.writesAll
        (whole.mpr method)).2
    rw [rounds, steady.setup.request.endingBytes, exactly] at length
    exact length

/-- A finished run whose ending is whole returns the amount. -/
theorem steady_returns
    (encBuffer : EncBuffer Aes)
    (reliable : env.Reliable)
    {config : Cnf}
    (split : config.Split)
    (realMethod : config.method ≠ .methodsCount)
    (finite : 0 < config.bytes)
    {state : ChunkState Aes}
    (steady :
      state.Steady config (config.chunkCount + config.aesThread))
    (method :
      config.method = .getBytes ∨ config.endingBytes % 8 = 0) :
    (finishGenerate env encBuffer none state).returned =
      config.bytes := by
  have whole :=
    (ending_whole_iff reliable.neverFails split realMethod
      steady.setup).mpr method
  simp only [finishGenerate,
    (generateEnding_complete encBuffer reliable.writesAll whole).1,
    steady.setup.request.endingBytes]
  exact steady_returned split finite steady

/-- Where the chunk loop finishes, `generate` can end in one way only. -/
theorem generate_of_finished
    {config : Cnf}
    {aes : Aes}
    {passes later : Nat}
    {generated : Generated Aes}
    {final : ChunkState Aes}
    (ended : generate env encBuffer config aes passes = some generated)
    (finished :
      generateChunk env encBuffer config aes later = .finished final) :
    generated = finishGenerate env encBuffer none final := by
  have sameEnd :
      generateChunk env encBuffer config aes passes =
        .finished final := by
    rw [← finished]
    apply Loop.run_ended_unique
    · cases status : generateChunk env encBuffer config aes passes with
      | running current =>
          simp [generate, status] at ended
      | finished final =>
          rw [← generateChunk, status]
          rfl
      | left exit final =>
          rw [← generateChunk, status]
          rfl
    · rw [← generateChunk, finished]
      rfl
  simp only [generate, sameEnd, Option.some.injEq] at ended
  exact ended.symm

/--
Without failures `generate` ends, writes the requested number of bytes and
returns it, if and only if an `unsigned int` can count the passes, and the
method generates single bytes or the amount consists of whole words.
-/
theorem generate_amount_iff
    {libc : LibC}
    {errno : Bool}
    {arguments : List Argument}
    {config : Cnf}
    (parsed :
      parseArgs libc errno arguments defaultConfigSetting =
        (.success, config))
    (finite : 0 < config.bytes)
    (reliable : env.Reliable)
    (aes : Aes) :
    (∃ passes generated,
      generate env encBuffer config aes passes = some generated ∧
        (outputCells generated.trace).length = config.bytes ∧
        generated.returned = config.bytes) ↔
      config.bytes / 8 / (maxChunkSize * config.threads) +
          config.aesThread < uintModulus ∧
        (config.method = .getBytes ∨ config.bytes % 8 = 0) := by
  obtain ⟨split, realMethod⟩ := parseArgs_split parsed
  rw [← split.passes_lt_iff, ← split.endingBytes_mod finite]
  constructor
  · rintro ⟨passes, generated, ended, length, _⟩
    have countable :
        config.chunkCount + config.aesThread < uintModulus := by
      by_contra uncountable
      have endless :=
        generateChunk_endless encBuffer reliable split
          realMethod finite aes (Nat.not_lt.mp uncountable) passes
      rw [ended] at endless
      cases endless
    obtain ⟨final, finished, steady⟩ :=
      generateChunk_finished encBuffer reliable split
        realMethod finite aes countable
    rw [generate_of_finished ended finished,
      steady_writes_iff encBuffer reliable split realMethod finite
        steady] at length
    exact ⟨countable, length⟩
  · rintro ⟨countable, method⟩
    obtain ⟨final, finished, steady⟩ :=
      generateChunk_finished encBuffer reliable split
        realMethod finite aes countable
    have length :=
      (steady_writes_iff encBuffer reliable split realMethod finite
        steady).mpr method
    have returned :=
      steady_returns encBuffer reliable split realMethod finite steady
        method
    exact ⟨_, _, by rw [generate, finished], length, returned⟩

end Steady

/-- Thirty-two bytes with two threads on a device that never fails. -/
theorem generate_amount_iff_counting :
    ∃ config,
      parseArgs LibC.decimal false
          [.amount "32", .threads "2"] defaultConfigSetting =
        (.success, config) ∧
      ((∃ passes generated,
        generate (.inOrder .counting) plainCopy config () passes =
            some generated ∧
          (outputCells generated.trace).length = config.bytes ∧
          generated.returned = config.bytes) ↔
        config.bytes / 8 / (maxChunkSize * config.threads) +
            config.aesThread < uintModulus ∧
          (config.method = .getBytes ∨ config.bytes % 8 = 0)) := by
  have parsed :
      parseArgs LibC.decimal false
          [.amount "32", .threads "2"] defaultConfigSetting =
        (.success,
          (parseArgs LibC.decimal false
            [.amount "32", .threads "2"] defaultConfigSetting).2) := by
    decide
  have reliable : (Environment.inOrder .counting).Reliable :=
    ⟨Device.counting_neverFails, fun _ _ => rfl⟩
  exact ⟨_, parsed, generate_amount_iff parsed (by decide) reliable ()⟩

/--
The amount 3705 with the method `reseed_skip`: the ending of nine bytes is
rounded down to eight and given up, so 3696 bytes are written.
-/
theorem generate_drops_ending :
    (parseArgs LibC.decimal false
      [.amount "3705", .method "reseed_skip"]
      defaultConfigSetting).1 = .success ∧
    (parseArgs LibC.decimal false
      [.amount "3705", .method "reseed_skip"]
      defaultConfigSetting).2.bytes = 3705 ∧
    (generate (.inOrder .counting) plainCopy
      (parseArgs LibC.decimal false
        [.amount "3705", .method "reseed_skip"]
        defaultConfigSetting).2 () 4).map
      (fun generated =>
        (generated.returned, (outputCells generated.trace).length)) =
      some (3704, 3696) := by
  refine ⟨by decide, by decide, ?_⟩
  decide +kernel

end RdRand
