import Mathlib.Data.List.Forall2
import RdRand.Decryption
import RdRand.EncryptedOutput

namespace RdRand

/-!
# Decrypting the output of the generator

With AES the generator makes one call of `rdrand_enc_buffer` for each buffer
it writes, as long as every pass ends with its buffer filled.  Whoever has the
keys can then decrypt what is written, buffer by buffer.
-/

open ControlLoop

/-- The bytes of some cells. -/
def cellValues (cells : List Cell) : List Byte :=
  cells.map Cell.value

@[simp] theorem cellValues_length (cells : List Cell) :
    (cellValues cells).length = cells.length := by
  simp [cellValues]

section Traces

variable {Aes : Type}

/-- The buffer an event passes to `fwrite`. -/
def Event.passedBuffer : Event Aes → Option (List Cell)
  | .generated _ => none
  | .encrypted _ _ => none
  | .output data _ _ _ => some data

/-- The buffers passed to `fwrite`, in order. -/
def passedBuffers (trace : List (Event Aes)) : List (List Byte) :=
  (trace.filterMap Event.passedBuffer).map cellValues

/-- The buffers passed to `rdrand_enc_buffer`, in order. -/
def encryptedBuffers (trace : List (Event Aes)) : List (List Byte) :=
  (encryptedSources trace).map cellValues

@[simp] theorem passedBuffers_append (first second : List (Event Aes)) :
    passedBuffers (first ++ second) =
      passedBuffers first ++ passedBuffers second := by
  simp [passedBuffers]

@[simp] theorem encryptedBuffers_append (first second : List (Event Aes)) :
    encryptedBuffers (first ++ second) =
      encryptedBuffers first ++ encryptedBuffers second := by
  simp [encryptedBuffers, encryptedSources]

end Traces

/-- The state after some calls of `rdrand_enc_buffer`. -/
def afterBuffers
    (ssl : OpenSsl)
    (sources : List (List Byte))
    (state : AesState) : AesState :=
  sources.foldl
    (fun current source => (rdrandEncBuffer ssl source current).state) state

section Calls

variable (ssl : OpenSsl)

theorem bufferCalls_append
    (first second : List (List Byte))
    (state : AesState) :
    bufferCalls ssl (first ++ second) state =
      bufferCalls ssl first state ++
        bufferCalls ssl second (afterBuffers ssl first state) := by
  induction first generalizing state with
  | nil =>
      rfl
  | cons source rest inductionHypothesis =>
      simp only [List.cons_append, bufferCalls, inductionHypothesis,
        afterBuffers, List.foldl_cons]

/-- The bytes of the cells that a call writes are those of the call. -/
theorem rdrandEncBufferCells_values
    (source : List Cell)
    (state : AesState) :
    cellValues (rdrandEncBufferCells ssl state source).written =
      (rdrandEncBuffer ssl (cellValues source) state).bytes := by
  have within :
      (rdrandEncBuffer ssl (cellValues source) state).written.length ≤
        (cellValues source).length :=
    rdrandEncBuffer_length_le ssl _ _
  unfold cellValues at within ⊢
  unfold rdrandEncBufferCells Encrypted.bytes
  rw [List.map_zipWith]
  apply List.ext_getElem
  · simpa using within
  · intro index _ _
    simp

end Calls

/--
What is passed to `fwrite` holds the encryptions of successive buffers, one
each, and the AES layer is in the state these leave.
-/
structure Transmitted
    (ssl : OpenSsl)
    (start : AesState)
    (trace : List (Event AesState))
    (aes : AesState) : Prop where
  arrive :
    List.Forall₂ BufferCall.ArrivesIn
      (bufferCalls ssl (encryptedBuffers trace) start)
      (passedBuffers trace)
  aes : aes = afterBuffers ssl (encryptedBuffers trace) start

section Transmissions

variable
  {ssl : OpenSsl}
  {start aes : AesState}
  {trace : List (Event AesState)}

/-- Nothing is transmitted at first. -/
theorem Transmitted.nothing :
    Transmitted ssl start [] start where
  arrive := .nil
  aes := rfl

/-- Generating a buffer transmits nothing. -/
theorem generatedEvents_buffers (state : ChunkState AesState) :
    encryptedBuffers state.generatedEvents = [] ∧
      passedBuffers state.generatedEvents = [] := by
  unfold ChunkState.generatedEvents
  split
  · exact ⟨rfl, rfl⟩
  · exact ⟨rfl, rfl⟩

/-- A buffer holds what a call has written to it. -/
theorem window_arrives
    (contents : Nat → Cell)
    (source : List Cell) :
    BufferCall.ArrivesIn
      { source := cellValues source
        encrypted := rdrandEncBuffer ssl (cellValues source) aes }
      (cellValues
        (CellMemory.window
          (CellMemory.store contents 0
            (rdrandEncBufferCells ssl aes source).written)
          0 source.length)) where
  sameLength := by
    simp
  front := by
    have length := rdrandEncBuffer_length_le ssl (cellValues source) aes
    have values := rdrandEncBufferCells_values ssl source aes
    have fits :
        (rdrandEncBufferCells ssl aes source).written.length ≤
          source.length := by
      have sameLength := congrArg List.length values
      rw [cellValues_length, Encrypted.bytes, List.length_map]
        at sameLength
      rw [cellValues_length] at length
      rw [sameLength]
      exact length
    simp only
    rw [← values]
    exact (CellMemory.window_store_front contents 0 fits).map _

/-- A trace that neither encrypts nor passes on anything more. -/
theorem Transmitted.quiet
    (kept : Transmitted ssl start trace aes)
    {events : List (Event AesState)}
    (noSources : encryptedBuffers events = [])
    (noBuffers : passedBuffers events = []) :
    Transmitted ssl start (trace ++ events) aes where
  arrive := by
    rw [encryptedBuffers_append, passedBuffers_append, noSources,
      noBuffers, List.append_nil, List.append_nil]
    exact kept.arrive
  aes := by
    rw [encryptedBuffers_append, noSources, List.append_nil]
    exact kept.aes

/-- A buffer that is encrypted and then passed on is transmitted. -/
theorem Transmitted.buffer
    (kept : Transmitted ssl start trace aes)
    {events : List (Event AesState)}
    (source : List Cell)
    (contents : Nat → Cell)
    (sources : encryptedBuffers events = [cellValues source])
    (buffers :
      passedBuffers events =
        [cellValues
          (CellMemory.window
            (CellMemory.store contents 0
              (rdrandEncBufferCells ssl aes source).written)
            0 source.length)]) :
    Transmitted ssl start (trace ++ events)
      (rdrandEncBufferCells ssl aes source).aes where
  arrive := by
    rw [encryptedBuffers_append, passedBuffers_append, sources, buffers,
      bufferCalls_append, ← kept.aes]
    exact
      List.rel_append kept.arrive
        (.cons (window_arrives contents source) .nil)
  aes := by
    rw [encryptedBuffers_append, sources, afterBuffers,
      List.foldl_append]
    change _ = (rdrandEncBuffer ssl _ (afterBuffers ssl _ start)).state
    rw [← kept.aes]
    rfl

end Transmissions

section Run

variable
  {env : Environment}
  {ssl : OpenSsl}
  {start : AesState}

/-- Every pass of a run ends with its buffer filled. -/
def RunFinishes
    (env : Environment)
    (ssl : OpenSsl)
    (config : Cnf)
    (start : AesState) : Prop :=
  ∀ passes state,
    generateChunk env (rdrandEncBufferCells ssl) config start passes =
      .running state →
    state.guard = true →
    ∃ base, Finishing env (rdrandEncBufferCells ssl) state base

/-- What every pass of such a run keeps. -/
structure ChunkState.Transmits
    (ssl : OpenSsl)
    (start : AesState)
    (config : Cnf)
    (state : ChunkState AesState) : Prop where
  threads : state.config.threads = config.threads
  transmitted : Transmitted ssl start state.trace state.aes

/-- While no thread is given up, the buffer has the size of a round. -/
theorem ChunkState.Transmits.size
    {config : Cnf}
    {state : ChunkState AesState}
    (setup : state.Setup config)
    (transmits : state.Transmits ssl start config) :
    state.bufSizeBytes = 8 * state.bufSize := by
  rw [setup.bufSizeBytes, setup.arrays.size, setup.request.chunkSize,
    transmits.threads, Cnf.roundBytes]

/-- What a finishing pass adds to the trace before its write. -/
theorem Finishing.transmits
    {config : Cnf}
    {state base : ChunkState AesState}
    (flag : config.aesFlag = true)
    (setup : state.Setup config)
    (transmits : state.Transmits ssl start config)
    (finishing : Finishing env (rdrandEncBufferCells ssl) state base) :
    Transmitted ssl start
      (base.trace ++ base.generatedEvents ++ base.outputEvents env)
      base.aes := by
  have same := finishing.sameSetup
  have stateFlag : state.config.aesFlag = true :=
    setup.request.aesFlag.trans flag
  have skips : base.skipsWrite = !state.encrypts := by
    simp [ChunkState.skipsWrite, ChunkState.encrypts,
      same.request.aesFlag, same.firstRun, stateFlag]
  obtain ⟨noSources, noBuffers⟩ := generatedEvents_buffers base
  rw [finishing.trace, finishing.aes, ChunkState.outputEvents, skips]
  cases encrypts : state.encrypts with
  | false =>
      have region :=
        parallelFor_sameBesides env (rdrandEncBufferCells ssl) encrypts
      have trace : (parallelFor env (rdrandEncBufferCells ssl) state).trace =
          state.trace := region.trace
      have aes : (parallelFor env (rdrandEncBufferCells ssl) state).aes =
          state.aes := region.aes
      rw [trace, aes, Bool.not_false, if_pos rfl, List.append_nil]
      exact transmits.transmitted.quiet noSources noBuffers
  | true =>
      have region :=
        parallelFor_encrypted env (rdrandEncBufferCells ssl) setup.arrays
          encrypts
      have length :
          state.encryptionSource.length = 8 * base.bufSize := by
        rw [ChunkState.encryptionSource, CellMemory.window_length,
          transmits.size setup, same.bufSize]
      have notCurrent : Buffer.buf ≠ state.genCurrent :=
        (setup.arrays.separate stateFlag).1.symm
      rw [Bool.not_true, if_neg Bool.false_ne_true, region.trace,
        region.aes, finishing.memory notCurrent, region.buf, ← length,
        List.append_assoc, List.append_assoc]
      refine
        transmits.transmitted.buffer state.encryptionSource
          (state.memory .buf) ?_ ?_
      · rw [encryptedBuffers_append, encryptedBuffers_append, noSources]
        rfl
      · rw [passedBuffers_append, passedBuffers_append, noBuffers]
        rfl

/-- A pass that finishes is not run again. -/
theorem Finishing.elim_rerun
    {state base : ChunkState AesState}
    (finishing : Finishing env (rdrandEncBufferCells ssl) state base)
    (underflows : Underflows env (rdrandEncBufferCells ssl) state)
    (threads : state.config.threads ≠ 1) : False := by
  cases finishing with
  | region recovered =>
      exact recovered underflows
  | refill _ oneThread _ =>
      exact threads oneThread

/-- A pass that finishes is not given up. -/
theorem Finishing.elim_giveUp
    {state base : ChunkState AesState}
    (finishing : Finishing env (rdrandEncBufferCells ssl) state base)
    (underflows : Underflows env (rdrandEncBufferCells ssl) state)
    (short :
      (state.slow env (rdrandEncBufferCells ssl)).written ≠
        state.bufSize) : False := by
  cases finishing with
  | region recovered =>
      exact recovered underflows
  | refill _ _ whole =>
      exact short whole

/-- A run whose passes finish transmits every buffer it writes. -/
theorem generateChunk_transmits
    {config : Cnf}
    (flag : config.aesFlag = true)
    (finishes : RunFinishes env ssl config start)
    (passes : Nat) :
    (generateChunk env (rdrandEncBufferCells ssl) config start
        passes).state.config.aesFlag = true ∧
      Transmitted ssl start
        (generateChunk env (rdrandEncBufferCells ssl) config start
          passes).state.trace
        (generateChunk env (rdrandEncBufferCells ssl) config start
          passes).state.aes := by
  refine Loop.run_outcome
    (fun state : ChunkState AesState =>
      state.config.aesFlag = true ∧ state.Transmits ssl start config)
    (fun state : ChunkState AesState =>
      state.config.aesFlag = true ∧
        Transmitted ssl start state.trace state.aes)
    passes ?_ ?_ ?_ ?_
  · exact ⟨flag, rfl, .nothing⟩
  · rintro earlier before after within run guarded pass ⟨_, kept⟩
    have setup := chunkLoop_setup run
    obtain ⟨_, finished⟩ := finishes earlier before run guarded
    cases chunkPass_again pass with
    | rerun underflows threads result =>
        exact (finished.elim_rerun underflows threads).elim
    | finish base finishing writes result =>
        have request := finishing.sameSetup
        subst result
        refine ⟨?_, ?_, ?_⟩
        · rw [finished_config, request.request.aesFlag,
            setup.request.aesFlag, flag]
        · rw [finished_config, request.threads, kept.threads]
        · rw [finished_trace, finished_aes]
          exact finishing.transmits flag setup kept
  · rintro earlier before final exit within run guarded pass ⟨_, kept⟩
    have setup := chunkLoop_setup run
    obtain ⟨_, finished⟩ := finishes earlier before run guarded
    cases chunkPass_leave pass with
    | hardwareProblem underflows oneThread short =>
        exact (finished.elim_giveUp underflows short).elim
    | shortWrite base finishing writes short =>
        have request := finishing.sameSetup
        have transmitted := finishing.transmits flag setup kept
        refine ⟨?_, ?_⟩
        · change base.prepared.config.aesFlag = true
          rw [prepared_config, request.request.aesFlag,
            setup.request.aesFlag, flag]
        · simpa [ChunkState.outputEvents, writes,
            ChunkState.afterWrite] using transmitted
  · rintro state ⟨flagged, kept⟩
    exact ⟨flagged, kept.transmitted⟩

/-- The ending transmits its buffer, or nothing. -/
theorem generateEnding_transmits
    {state : ChunkState AesState}
    (flag : state.config.aesFlag = true)
    (kept : Transmitted ssl start state.trace state.aes) :
    ∃ aes,
      Transmitted ssl start
        (generateEnding env (rdrandEncBufferCells ssl) state).trace aes := by
  unfold generateEnding
  simp only [flag, if_true]
  split
  · exact ⟨_, kept⟩
  · rw [List.append_assoc]
    have length :
        (endingSource env state).length = state.config.endingBytes :=
      CellMemory.window_length _ _ _
    refine
      ⟨_,
        kept.buffer (endingSource env state)
          (env.stack .generateEnding .buf) rfl ?_⟩
    rw [length]
    rfl

/-- A run whose passes finish transmits all it writes. -/
theorem generateTrace_transmits
    {config : Cnf}
    (flag : config.aesFlag = true)
    (finishes : RunFinishes env ssl config start)
    (passes : Nat) :
    ∃ aes,
      Transmitted ssl start
        (generateTrace env (rdrandEncBufferCells ssl) config start passes)
        aes := by
  obtain ⟨flagged, kept⟩ := generateChunk_transmits flag finishes passes
  unfold generateTrace generate
  cases status :
      generateChunk env (rdrandEncBufferCells ssl) config start passes with
  | running current =>
      rw [status] at kept
      exact ⟨_, kept⟩
  | finished final =>
      rw [status] at kept flagged
      exact generateEnding_transmits flagged kept
  | left exit final =>
      rw [status] at kept flagged
      exact generateEnding_transmits flagged kept

end Run

/--
Whoever sets the same given keys, and calls `rdrand_enc_buffer` once for each
buffer that a run of the generator writes, gets back what the generator's own
call encrypted of it, as long as every pass of the run ends with its buffer
filled: no thread is given up, nor the run.
-/
theorem generate_decrypts
    {env : Environment}
    {sender receiver : OpenSsl}
    (senderCipher : sender.CipherSucceeds)
    (receiverCipher : receiver.CipherSucceeds)
    (sameStream : receiver.keystream = sender.keystream)
    {amount keyLength : Nat}
    (amountBounded : amount < uintModulus)
    {keys nonces : List (List Byte)}
    {senderBefore receiverBefore : AesState}
    (senderSet :
      (rdrandSetAesKeys sender amount keyLength keys nonces
        senderBefore).success = true)
    (receiverSet :
      (rdrandSetAesKeys receiver amount keyLength keys nonces
        receiverBefore).success = true)
    {config : Cnf}
    (flag : config.aesFlag = true)
    (finishes :
      RunFinishes env sender config
        (rdrandSetAesKeys sender amount keyLength keys nonces
          senderBefore).state)
    (passes : Nat) :
    List.Forall₂ BufferCall.RestoredBy
      (bufferCalls sender
        (encryptedBuffers
          (generateTrace env (rdrandEncBufferCells sender) config
            (rdrandSetAesKeys sender amount keyLength keys nonces
              senderBefore).state
            passes))
        (rdrandSetAesKeys sender amount keyLength keys nonces
          senderBefore).state)
      (bufferCalls receiver
        (passedBuffers
          (generateTrace env (rdrandEncBufferCells sender) config
            (rdrandSetAesKeys sender amount keyLength keys nonces
              senderBefore).state
            passes))
        (rdrandSetAesKeys receiver amount keyLength keys nonces
          receiverBefore).state) := by
  obtain ⟨_, transmitted⟩ := generateTrace_transmits flag finishes passes
  exact
    bufferCalls_restored senderCipher receiverCipher sameStream
      (rdrandSetAesKeys_follows senderCipher.init amountBounded senderSet)
      (rdrandSetAesKeys_follows receiverCipher.init amountBounded
        receiverSet)
      transmitted.arrive

/-- On a device that never fails every pass finishes. -/
theorem runFinishes_of_neverFails
    {env : Environment}
    (neverFails : env.device.NeverFails)
    {config : Cnf}
    (split : config.Split)
    (realMethod : config.method ≠ .methodsCount)
    (ssl : OpenSsl)
    (start : AesState) :
    RunFinishes env ssl config start := by
  intro passes state running _
  exact
    ⟨_,
      .region
        (not_underflows_of_neverFails neverFails split realMethod
          (chunkLoop_setup running))⟩

/-- Three buffers of eight chunks each, and a given key. -/
theorem generate_decrypts_oneKey :
    List.Forall₂ BufferCall.RestoredBy
      (bufferCalls .sample
        (encryptedBuffers
          (generateTrace (.inOrder .counting)
            (rdrandEncBufferCells .sample)
            (parseArgs LibC.decimal false
              [.amount "49152", .threads "1", .aesCtr]
              defaultConfigSetting).2
            (rdrandSetAesKeys .sample 1 16 [List.replicate 16 1]
              [List.replicate 8 3] aesStart).state
            5))
        (rdrandSetAesKeys .sample 1 16 [List.replicate 16 1]
          [List.replicate 8 3] aesStart).state)
      (bufferCalls .sampleReceiver
        (passedBuffers
          (generateTrace (.inOrder .counting)
            (rdrandEncBufferCells .sample)
            (parseArgs LibC.decimal false
              [.amount "49152", .threads "1", .aesCtr]
              defaultConfigSetting).2
            (rdrandSetAesKeys .sample 1 16 [List.replicate 16 1]
              [List.replicate 8 3] aesStart).state
            5))
        (rdrandSetAesKeys .sampleReceiver 1 16 [List.replicate 16 1]
          [List.replicate 8 3] aesStart).state) := by
  have parsed :
      parseArgs LibC.decimal false
          [.amount "49152", .threads "1", .aesCtr] defaultConfigSetting =
        (.success,
          (parseArgs LibC.decimal false
            [.amount "49152", .threads "1", .aesCtr]
            defaultConfigSetting).2) := by
    decide
  obtain ⟨split, realMethod⟩ := parseArgs_split parsed
  exact
    generate_decrypts OpenSsl.sample_cipherSucceeds
      OpenSsl.sampleReceiver_cipherSucceeds rfl (by decide) rfl rfl
      (by decide)
      (runFinishes_of_neverFails Device.counting_neverFails split
        realMethod .sample _)
      5

end RdRand
