import RdRand.FileDecryption
import RdRand.Program

namespace RdRand

/-!
# The encryption calls of a run

The trace of a run records every call of `rdrand_enc_buffer`, however the
passes end: the state of the AES layer is what these calls have led to.
Without AES there are none.
-/

open ControlLoop

/-- The calls that a trace records have led to a state of the AES layer. -/
structure Recorded
    (ssl : OpenSsl)
    (start : AesState)
    (flag : Bool)
    (trace : List (Event AesState))
    (aes : AesState) : Prop where
  aes : aes = afterBuffers ssl (encryptedBuffers trace) start
  plain : flag = false → encryptedBuffers trace = []

section Records

variable
  {env : Environment}
  {ssl : OpenSsl}
  {start aes : AesState}
  {flag : Bool}
  {trace events : List (Event AesState)}

/-- Events without an encryption. -/
theorem Recorded.quiet
    (recorded : Recorded ssl start flag trace aes)
    (noSources : encryptedBuffers events = []) :
    Recorded ssl start flag (trace ++ events) aes where
  aes := by
    rw [encryptedBuffers_append, noSources, List.append_nil]
    exact recorded.aes
  plain off := by
    rw [encryptedBuffers_append, noSources, List.append_nil]
    exact recorded.plain off

/-- An encryption. -/
theorem Recorded.encrypted
    (recorded : Recorded ssl start flag trace aes)
    (on : flag = true)
    (source : List Cell) :
    Recorded ssl start flag
      (trace ++
        [.encrypted source
          (rdrandEncBufferCells ssl aes source).written])
      (rdrandEncBufferCells ssl aes source).aes where
  aes := by
    rw [encryptedBuffers_append, afterBuffers, List.foldl_append]
    change
      _ =
        (rdrandEncBuffer ssl (cellValues source)
          (afterBuffers ssl (encryptedBuffers trace) start)).state
    rw [← recorded.aes]
    rfl
  plain off := by
    rw [on] at off
    cases off

/-- What a state of the chunk loop has recorded. -/
structure ChunkState.Records
    (ssl : OpenSsl)
    (start : AesState)
    (flag : Bool)
    (state : ChunkState AesState) : Prop where
  sameFlag : state.config.aesFlag = flag
  recorded : Recorded ssl start flag state.trace state.aes

variable {state base : ChunkState AesState}

/-- A parallel region records its call. -/
theorem filled_records
    (arrays : state.Arrays)
    (records : state.Records ssl start flag) :
    (state.filled env (rdrandEncBufferCells ssl)).Records ssl start
      flag := by
  refine ⟨records.sameFlag, ?_⟩
  change
    Recorded ssl start flag
      (parallelFor env (rdrandEncBufferCells ssl) state).trace
      (parallelFor env (rdrandEncBufferCells ssl) state).aes
  cases encrypts : state.encrypts with
  | false =>
      have region :=
        parallelFor_sameBesides env (rdrandEncBufferCells ssl) encrypts
      rw [region.trace, region.aes]
      exact records.recorded
  | true =>
      have region :=
        parallelFor_encrypted env (rdrandEncBufferCells ssl) arrays
          encrypts
      have on : flag = true := by
        rw [← records.sameFlag]
        unfold ChunkState.encrypts at encrypts
        simp only [Bool.and_eq_true] at encrypts
        exact encrypts.1
      rw [region.trace, region.aes]
      exact records.recorded.encrypted on state.encryptionSource

/-- A pass that finishes has recorded its call. -/
theorem Finishing.records
    (arrays : state.Arrays)
    (records : state.Records ssl start flag)
    (finishing :
      Finishing env (rdrandEncBufferCells ssl) state base) :
    base.Records ssl start flag := by
  have filled :
      (state.filled env (rdrandEncBufferCells ssl)).Records ssl start
        flag :=
    filled_records arrays records
  cases finishing with
  | region _ =>
      exact filled
  | refill _ _ _ =>
      exact ⟨filled.sameFlag, filled.recorded⟩

/-- Writing a buffer records no call. -/
theorem outputEvents_buffers (state : ChunkState AesState) :
    encryptedBuffers (state.outputEvents env) = [] := by
  unfold ChunkState.outputEvents
  split
  · rfl
  · rfl

/-- What a finished pass adds records no call. -/
theorem finished_records
    (records : state.Records ssl start flag) :
    (state.finished env).Records ssl start flag where
  sameFlag := by
    rw [finished_config]
    exact records.sameFlag
  recorded := by
    rw [finished_trace, finished_aes, List.append_assoc]
    refine records.recorded.quiet ?_
    rw [encryptedBuffers_append, (generatedEvents_buffers state).1,
      outputEvents_buffers]
    rfl

/-- Neither does a short write. -/
theorem afterWrite_records
    (records : state.Records ssl start flag)
    (writes : state.skipsWrite = false) :
    (state.prepared.afterWrite env).Records ssl start flag := by
  have finished : (state.finished env).Records ssl start flag :=
    finished_records records
  unfold ChunkState.finished at finished
  rw [writes, if_neg Bool.false_ne_true] at finished
  exact ⟨finished.sameFlag, finished.recorded⟩

/-- The chunk loop records every call. -/
theorem generateChunk_records
    (env : Environment)
    (ssl : OpenSsl)
    (config : Cnf)
    (start : AesState)
    (passes : Nat) :
    (generateChunk env (rdrandEncBufferCells ssl) config start
        passes).state.Records ssl start config.aesFlag := by
  refine Loop.run_invariant
    (fun state : ChunkState AesState =>
      state.Records ssl start config.aesFlag)
    passes ⟨rfl, rfl, fun _ => rfl⟩ ?_ ?_
  · intro earlier before after within run guarded pass records
    have arrays := (chunkLoop_setup run).arrays
    cases chunkPass_again pass with
    | rerun underflows threads result =>
        have filled :
            (before.filled env (rdrandEncBufferCells ssl)).Records ssl
              start config.aesFlag :=
          filled_records arrays records
        rw [result]
        exact ⟨filled.sameFlag, filled.recorded⟩
    | finish base finishing writes result =>
        rw [result]
        exact finished_records (finishing.records arrays records)
  · intro earlier before final exit within run guarded pass records
    have arrays := (chunkLoop_setup run).arrays
    cases chunkPass_leave pass with
    | hardwareProblem underflows oneThread short =>
        have filled :
            (before.filled env (rdrandEncBufferCells ssl)).Records ssl
              start config.aesFlag :=
          filled_records arrays records
        exact ⟨filled.sameFlag, filled.recorded⟩
    | shortWrite base finishing writes short =>
        exact
          afterWrite_records (finishing.records arrays records) writes

/-- The ending records its call, too. -/
theorem generateEnding_records
    (records : state.Records ssl start flag) :
    Recorded ssl start flag
      (generateEnding env (rdrandEncBufferCells ssl) state).trace
      (endingAes env ssl state) := by
  unfold generateEnding endingAes
  simp only
  split
  · next short =>
      have notWhole :
          ¬ (state.config.aesFlag = true ∧
            (endingFill env state).generated =
              state.config.endingBytes) :=
        fun both => short both.2
      rw [if_neg notWhole]
      exact records.recorded
  · next whole =>
      have generated :
          (endingFill env state).generated = state.config.endingBytes :=
        Decidable.not_not.mp whole
      cases on : state.config.aesFlag with
      | true =>
          simp only [if_true]
          rw [if_pos ⟨trivial, generated⟩]
          exact
            (records.recorded.encrypted
              (records.sameFlag.symm.trans on)
              (endingSource env state)).quiet rfl
      | false =>
          simp only [Bool.false_eq_true, if_false, false_and,
            List.append_nil]
          exact records.recorded.quiet rfl

/-- What a run has recorded where it still goes on, and where it has ended. -/
theorem generate_records
    (env : Environment)
    (ssl : OpenSsl)
    (config : Cnf)
    (start : AesState)
    (passes : Nat) :
    ∃ aes,
      Recorded ssl start config.aesFlag
          (generateTrace env (rdrandEncBufferCells ssl) config start
            passes)
          aes ∧
        (generate env (rdrandEncBufferCells ssl) config start
            passes ≠ none →
          aes = generateAes env ssl config start passes) := by
  have records := generateChunk_records env ssl config start passes
  unfold generateTrace generateAes generate
  cases status :
      generateChunk env (rdrandEncBufferCells ssl) config start
        passes with
  | running current =>
      rw [status] at records
      exact ⟨_, records.recorded, fun ended => absurd rfl ended⟩
  | finished final =>
      rw [status] at records
      exact ⟨_, generateEnding_records records, fun _ => rfl⟩
  | left exit final =>
      rw [status] at records
      exact ⟨_, generateEnding_records records, fun _ => rfl⟩

end Records

end RdRand
