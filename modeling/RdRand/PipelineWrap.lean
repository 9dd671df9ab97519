import RdRand.ChunkPipeline
import RdRand.StepOrder

namespace RdRand

/-!
# A pipeline that is not stopped

The loop counter is an `unsigned int`, its bound a `size_t`.  With AES and
2^32 - 1 chunks the counter wraps around to 0 when the pipeline is drained,
so the loop goes on, with a buffer that it has encrypted before.
-/

open ControlLoop

section Wrapped

variable
  {Aes : Type}
  {env : Environment}
  {encBuffer : EncBuffer Aes}

/-- Up to `chunk_count` passes the pipeline flows, even if it wraps later. -/
theorem generateChunk_flow_within
    (writesAll : env.WritesAll)
    (fillsDestination : encBuffer.FillsDestination)
    {config : Cnf}
    {aes : Aes}
    (complete : RunComplete env encBuffer config aes)
    {passes : Nat}
    {state : ChunkState Aes}
    (running :
      generateChunk env encBuffer config aes passes = .running state)
    (within : passes ≤ config.chunkCount) :
    state.Flow config encBuffer aes passes := by
  refine Loop.running_invariant
    (fun count reached =>
      count ≤ config.chunkCount →
      reached.Flow config encBuffer aes count)
    (fun _ => chunkStart_flow config aes) ?_ running within
  intro count before after run guarded pass kept bound
  have flow := kept (Nat.le_of_succ_le bound)
  obtain ⟨recovered, proceeds⟩ := complete.pass writesAll run guarded
  change chunkPass env encBuffer before = .again after at pass
  rw [proceeds] at pass
  cases pass
  refine flow.generating writesAll fillsDestination recovered ?_
  have le := Nat.mod_le count uintModulus
  simp only [ChunkState.generates, Bool.or_eq_true, decide_eq_true_eq,
    flow.steady.n, flow.steady.setup.request.chunkCount]
  omega

/--
A drained pipeline that goes on encrypts a buffer again that it has encrypted
before, instead of the one it generates.
-/
theorem ChunkState.Drained.not_pipelined
    {config : Cnf}
    {aes : Aes}
    {passes : Nat}
    {state : ChunkState Aes}
    (drained : state.Drained config encBuffer aes passes)
    (ordered : state.Ordered)
    (nonempty : 0 < config.roundBytes)
    (generates : state.generates = true)
    (filled : SlicesComplete env encBuffer state) :
    ¬ Pipelined config encBuffer aes (passes + 1)
      (state.passed env encBuffer).trace := by
  intro pipelined
  have setup := drained.steady.setup
  have size : state.bufSizeBytes = 8 * state.bufSize :=
    drained.steady.size
  have bufPositive : 0 < state.bufSize := by
    rw [setup.bufSizeBytes] at size
    omega
  have encrypts : state.encrypts = true := by
    have first := drained.steady.firstRun
    have later := drained.last
    simp [ChunkState.encrypts, setup.request.aesFlag, drained.flag,
      first, later]
  have sources :
      encryptedSources (state.passed env encBuffer).trace =
        generatedBuffers state.trace ++ [state.encryptionSource] := by
    rw [passed_encryptedSources setup.arrays, if_pos encrypts,
      drained.encrypted]
  have buffers :
      generatedBuffers (state.passed env encBuffer).trace =
        generatedBuffers state.trace ++
          [state.generatedBuffer env encBuffer] := by
    rw [passed_generatedBuffers setup.arrays, if_pos generates]
  have all :
      (generatedBuffers (state.passed env encBuffer).trace).take
        (passes + 1 - 1) =
      generatedBuffers (state.passed env encBuffer).trace := by
    apply List.take_of_length_le
    rw [buffers, List.length_append, drained.generated, drained.last]
    exact Nat.le_refl _
  have same :
      state.encryptionSource = state.generatedBuffer env encBuffer := by
    have order := pipelined.encrypted drained.flag
    rw [all, sources, buffers] at order
    exact List.singleton_inj.mp (List.append_cancel_left order)
  have sameCell :
      state.memory state.genPrevious 0 =
        (parallelFor env encBuffer state).memory state.genCurrent 0 := by
    have first := congrArg (fun cells => cells[0]?) same
    simp only [ChunkState.encryptionSource, ChunkState.generatedBuffer]
      at first
    rw [List.getElem?_eq_getElem (by simp; omega),
      List.getElem?_eq_getElem (by simp; omega)] at first
    simpa using first
  obtain ⟨position, notBefore, _, lanes⟩ :=
    parallelFor_fresh env encBuffer state setup.arrays generates
      ((parallelFor_written_eq_iff setup.arrays generates).mpr filled)
      bufPositive
  have fresh := lanes 0 (by decide)
  rw [Nat.mul_zero, Nat.zero_add, ← sameCell] at fresh
  have stale := ordered.previous 0 position (by rw [fresh]; rfl)
  omega

/-- Without failures the pipeline is drained after all its chunks. -/
theorem generateChunk_drained
    (reliable : env.Reliable)
    (fillsDestination : encBuffer.FillsDestination)
    {config : Cnf}
    (split : config.Split)
    (realMethod : config.method ≠ .methodsCount)
    (flag : config.aesFlag = true)
    (finite : 0 < config.bytes)
    (countSmall : config.chunkCount < uintModulus)
    (aes : Aes) :
    ∃ state,
      generateChunk env encBuffer config aes (config.chunkCount + 1) =
          .running state ∧
        state.Drained config encBuffer aes (config.chunkCount + 1) := by
  have complete : RunComplete env encBuffer config aes :=
    runComplete_of_neverFails reliable.neverFails split realMethod aes
  have thread : config.aesThread = 1 := by
    simp [Cnf.aesThread, flag]
  obtain ⟨state, running, steady⟩ :=
    generateChunk_steady encBuffer reliable split realMethod finite aes
      config.chunkCount (by
        intro earlier less
        have le := Nat.mod_le earlier uintModulus
        omega)
  have sameN : state.n = config.chunkCount := by
    rw [steady.n]
    exact Nat.mod_eq_of_lt countSmall
  have guarded : state.guard = true := by
    rw [steady.setup.guard_iff finite split.passes_lt]
    omega
  have drains : state.generates = false := by
    have someBytes : state.config.bytes ≠ 0 := by
      rw [steady.setup.request.bytes]
      omega
    simp [ChunkState.generates, sameN, someBytes,
      steady.setup.request.chunkCount]
  have flow :=
    generateChunk_flow_within reliable.writesAll fillsDestination
      complete running (Nat.le_refl _)
  obtain ⟨recovered, proceeds⟩ :=
    complete.pass reliable.writesAll running guarded
  exact
    ⟨_, Loop.run_snoc running guarded proceeds,
      flow.draining reliable.writesAll fillsDestination recovered guarded
        drains⟩

/--
Without failures a loop of 2^32 - 1 chunks with AES does not end when it is
drained, and leaves the pipeline.
-/
theorem generateChunk_not_pipelined
    (reliable : env.Reliable)
    (fillsDestination : encBuffer.FillsDestination)
    {config : Cnf}
    (split : config.Split)
    (realMethod : config.method ≠ .methodsCount)
    (wraps : ¬ config.CounterFits)
    (aes : Aes) :
    ∃ passes state,
      generateChunk env encBuffer config aes passes = .running state ∧
        ¬ Pipelined config encBuffer aes passes state.trace := by
  obtain ⟨flag, finite, count⟩ := not_not.mp wraps
  have uintLarge : 2 ≤ uintModulus := by
    decide
  have someChunks : 0 < config.chunkCount := by
    omega
  have nonempty : 0 < config.roundBytes := by
    have someShare : 0 < config.chunkSize := by
      by_contra noShare
      have noRounds := split.noRounds (by omega)
      omega
    exact Nat.lt_of_lt_of_le (by decide)
      (split.roundBytes_pos someShare)
  have complete : RunComplete env encBuffer config aes :=
    runComplete_of_neverFails reliable.neverFails split realMethod aes
  obtain ⟨state, running, drained⟩ :=
    generateChunk_drained reliable fillsDestination split realMethod flag
      finite (by omega) aes
  have setup := drained.steady.setup
  have wrapped : state.n = 0 := by
    rw [drained.steady.n, count,
      show uintModulus - 1 + 1 = uintModulus by omega, Nat.mod_self]
  have guarded : state.guard = true := by
    rw [setup.guard_iff finite split.passes_lt, wrapped]
    omega
  have generates : state.generates = true := by
    simp [ChunkState.generates, wrapped, setup.request.chunkCount,
      someChunks]
  obtain ⟨_, proceeds⟩ :=
    complete.pass reliable.writesAll running guarded
  have ordered : state.Ordered := chunkLoop_ordered flag running
  have filled := complete _ _ running guarded generates
  exact
    ⟨_, _, Loop.run_snoc running guarded proceeds,
      drained.not_pipelined ordered nonempty generates filled⟩

end Wrapped

/-- The amount of 2^46 - 2^14 bytes makes 2^32 - 1 passes for one thread. -/
def wrappingAmount : Cnf :=
  (parseArgs LibC.decimal false
    [.amount "70368744161280", .threads "1", .aesCtr]
    defaultConfigSetting).2

/--
With AES and 2^32 - 1 chunks the counter wraps around when the pipeline is
drained, and the loop goes on with a buffer that it has encrypted before.
-/
theorem generateChunk_pipeline_wraps :
    parseArgs LibC.decimal false
        [.amount "70368744161280", .threads "1", .aesCtr]
        defaultConfigSetting = (.success, wrappingAmount) ∧
      (Environment.inOrder .counting).WritesAll ∧
      plainCopy.FillsDestination ∧
      RunComplete (.inOrder .counting) plainCopy wrappingAmount () ∧
      ∃ passes state,
        generateChunk (.inOrder .counting) plainCopy wrappingAmount ()
            passes = .running state ∧
          ¬ Pipelined wrappingAmount plainCopy () passes
            state.trace := by
  have parsed :
      parseArgs LibC.decimal false
          [.amount "70368744161280", .threads "1", .aesCtr]
          defaultConfigSetting = (.success, wrappingAmount) := by
    decide
  have writesAll : (Environment.inOrder .counting).WritesAll :=
    fun _ _ => rfl
  have reliable : (Environment.inOrder .counting).Reliable :=
    ⟨Device.counting_neverFails, writesAll⟩
  obtain ⟨split, realMethod⟩ := parseArgs_split parsed
  have complete :
      RunComplete (.inOrder .counting) plainCopy wrappingAmount () :=
    runComplete_of_neverFails Device.counting_neverFails split
      realMethod ()
  refine
    ⟨parsed, writesAll, plainCopy_fillsDestination, complete, ?_⟩
  refine
    generateChunk_not_pipelined reliable plainCopy_fillsDestination split
      realMethod ?_ ()
  unfold Cnf.CounterFits
  decide

end RdRand
