import RdRand.BufferEncryption
import RdRand.ChunkFreshness
import RdRand.ChunkPipeline
import RdRand.StepOrder

namespace RdRand

/-!
# Encrypted output

With AES every byte that `generate` writes is meant to be the encryption of a
fresh byte of the device.  `generate_chunk` ignores the result of
`rdrand_enc_buffer`, which gives up at the first full chunk that finds no key
change due, and then writes what its output buffer held before.  The output
is fresh ciphertext as long as every slice that comes short is recovered, and
every chunk that is about to be written is encrypted.
-/

open ControlLoop

section Property

variable (ssl : OpenSsl) (device : Device) (start : AesState)

/--
Every byte passed to `fwrite` is what a successful cipher call, made after the
previous output, made of a byte that the device delivered and that has not
been put out before.
-/
def FreshCiphertext
    (before : List (Event AesState))
    (data : List Cell)
    (_aes : AesState) : Prop :=
  ∀ cell ∈ data,
    ∃ position lane,
      lane < 8 ∧
        device.Delivers position ∧
        (Cell.ofStep device position lane).EncryptionOf ssl
          (aesOfLastOutput start before).encryptCalls cell ∧
        ∀ earlier ∈ outputCells before,
          ∀ call, earlier.origin ≠ .cipher call (.step position)

/-- The output so far encrypts steps before a position only. -/
def SourcesBefore
    (position : Nat)
    (trace : List (Event AesState)) : Prop :=
  ∀ cell ∈ outputCells trace,
    ∀ call step,
      cell.origin = .cipher call (.step step) → step < position

/-- The cell encrypts what the device delivered between two positions. -/
def EncryptsFresh
    (since later calls : Nat)
    (cell : Cell) : Prop :=
  ∃ plain : Cell,
    plain.FromDevice device since ∧
      (∀ step, plain.origin = .step step → step < later) ∧
      plain.EncryptionOf ssl calls cell

/-- What a run with AES keeps of the output, up to a device position. -/
structure Ciphered
    (since : Nat)
    (trace : List (Event AesState))
    (aes : AesState) : Prop where
  outputs : EveryOutput (FreshCiphertext ssl device start) trace
  calls :
    (aesOfLastOutput start trace).encryptCalls ≤ aes.encryptCalls
  sources : SourcesBefore since trace

variable {ssl device start}

/-- Before a run nothing is put out. -/
theorem ciphered_start : Ciphered ssl device start 0 [] start where
  outputs := everyOutput_nil
  calls := Nat.le_refl _
  sources := by
    intro cell member
    cases member

/-- Later positions and later calls bound the same output. -/
theorem Ciphered.advance
    {since later : Nat}
    {trace : List (Event AesState)}
    {aes reached : AesState}
    (ciphered : Ciphered ssl device start since trace aes)
    (le : since ≤ later)
    (calls : aes.encryptCalls ≤ reached.encryptCalls) :
    Ciphered ssl device start later trace reached where
  outputs := ciphered.outputs
  calls := Nat.le_trans ciphered.calls calls
  sources := by
    intro cell member call step origin
    exact Nat.lt_of_lt_of_le
      (ciphered.sources cell member call step origin) le

/-- Events without output may be appended. -/
theorem Ciphered.append
    {since : Nat}
    {trace more : List (Event AesState)}
    {aes : AesState}
    (ciphered : Ciphered ssl device start since trace aes)
    (quiet : ∀ event ∈ more, event.Quiet) :
    Ciphered ssl device start since (trace ++ more) aes where
  outputs := everyOutput_append ciphered.outputs quiet
  calls := by
    rw [aesOfLastOutput_append start trace quiet]
    exact ciphered.calls
  sources := by
    unfold SourcesBefore
    rw [outputCells_append, outputCells_quiet quiet, List.append_nil]
    exact ciphered.sources

/-- An output that encrypts fresh bytes of the device keeps the output so. -/
theorem Ciphered.output
    {since later : Nat}
    {trace : List (Event AesState)}
    {aes reached : AesState}
    {data : List Cell}
    (ciphered : Ciphered ssl device start since trace aes)
    (le : since ≤ later)
    (made :
      ∀ cell ∈ data,
        EncryptsFresh ssl device since later aes.encryptCalls cell)
    (acceptedBytes position : Nat) :
    Ciphered ssl device start later
      (trace ++ [.output data acceptedBytes position reached])
      reached where
  outputs := by
    refine everyOutput_snoc ciphered.outputs ?_
    intro data' acceptedBytes' position' aes' isOutput
    cases isOutput
    intro cell member
    obtain ⟨plain, fromDevice, _, encryption⟩ := made cell member
    obtain ⟨step, lane, notBefore, small, delivers, rfl⟩ := fromDevice
    refine
      ⟨step, lane, small, delivers, encryption.since ciphered.calls, ?_⟩
    intro earlier putOut call origin
    have before := ciphered.sources earlier putOut call step origin
    omega
  calls := by
    rw [aesOfLastOutput_snoc]
    exact Nat.le_refl _
  sources := by
    intro cell member call step origin
    rw [outputCells_append] at member
    rcases List.mem_append.mp member with earlier | inData
    · exact Nat.lt_of_lt_of_le
        (ciphered.sources cell earlier call step origin) le
    · rw [outputCells_cons, outputCells_nil, List.append_nil] at inData
      obtain ⟨plain, _, before, call', origin', _⟩ :=
        made cell (List.mem_of_mem_take inData)
      rw [origin'] at origin
      exact before step (Origin.cipher.inj origin).2

/-- Fresh ciphertext holds nothing that was on the stack before. -/
theorem EveryOutput.not_stack
    {trace : List (Event AesState)}
    (fresh : EveryOutput (FreshCiphertext ssl device start) trace)
    {cell : Cell}
    (member : cell ∈ outputCells trace) :
    cell.origin ≠ .stack := by
  obtain ⟨event, inTrace, putOut⟩ := List.mem_flatMap.mp member
  obtain ⟨before, after, split⟩ := List.append_of_mem inTrace
  cases event with
  | generated contents =>
      cases putOut
  | encrypted source written =>
      cases putOut
  | output data acceptedBytes position aes =>
      obtain ⟨_, _, _, _, ⟨call, origin, _⟩, _⟩ :=
        fresh before data acceptedBytes position aes after split cell
          (List.mem_of_mem_take putOut)
      rw [origin]
      intro impossible
      cases impossible

end Property

section Conditions

variable (env : Environment) (ssl : OpenSsl)

/--
The condition on a pass: a slice that comes short is one the code can recover
from, and where the pass writes, what it writes gets encrypted.
-/
structure PassEncrypts (state : ChunkState AesState) : Prop where
  recoverable : Recoverable env (rdrandEncBufferCells ssl) state
  encrypted :
    state.encrypts = true →
    (state.generates = true →
      SlicesComplete env (rdrandEncBufferCells ssl) state) →
    FrontEncrypts ssl (8 * state.bufSize)
      (state.encryptionSource.map Cell.value) state.aes

/-- The fill that `generate_ending` makes. -/
def endingFill (state : ChunkState AesState) : Fill :=
  generateWithMetod env.device state.config env.endingAddress
    (state.config.endingBytes % uintModulus) retryLimit state.position

/-- The bytes that `generate_ending` passes to `rdrand_enc_buffer`. -/
def endingSource (state : ChunkState AesState) : List Cell :=
  CellMemory.window
    ((endingFill env state).applyTo (env.stack .generateEnding .genBuf1))
    env.endingAddress state.config.endingBytes

/-- The condition on the ending: if it is generated, it gets encrypted. -/
def EndingEncrypts (state : ChunkState AesState) : Prop :=
  (endingFill env state).generated = state.config.endingBytes →
    FrontEncrypts ssl state.config.endingBytes
      ((endingSource env state).map Cell.value) state.aes

end Conditions

section Passes

variable
  {env : Environment}
  {ssl : OpenSsl}
  {start : AesState}

/-- What a loop with AES has put out encrypts steps before a position. -/
structure ChunkState.CipheredUpTo
    (env : Environment)
    (ssl : OpenSsl)
    (start : AesState)
    (since : Nat)
    (state : ChunkState AesState) : Prop where
  flag : state.config.aesFlag = true
  reached : since ≤ state.position
  ciphered :
    Ciphered ssl env.device start since state.trace state.aes

/-- The buffer that waits to be encrypted holds later steps only. -/
structure ChunkState.CipheredSince
    (env : Environment)
    (ssl : OpenSsl)
    (start : AesState)
    (since : Nat)
    (state : ChunkState AesState) : Prop
    extends state.CipheredUpTo env ssl start since where
  waiting :
    state.encrypts = true →
    state.guard = true →
    ∀ offset,
      offset < 8 * state.bufSize →
      (state.memory state.genPrevious offset).FromDevice
        env.device since

/-- The output is never larger than what is encrypted. -/
theorem ChunkState.Setup.bufSize_le
    {Aes : Type}
    {config : Cnf}
    {state : ChunkState Aes}
    (setup : state.Setup config) :
    8 * state.bufSize ≤ state.bufSizeBytes := by
  rw [setup.bufSizeBytes, setup.arrays.size, setup.request.chunkSize,
    Cnf.roundBytes]
  exact
    Nat.mul_le_mul_left 8
      (Nat.mul_le_mul_left _ setup.threadsBounded)

variable (env ssl) in
/-- A parallel region adds no output. -/
theorem parallelFor_quiet
    {state : ChunkState AesState}
    (arrays : state.Arrays) :
    ∃ more,
      (parallelFor env (rdrandEncBufferCells ssl) state).trace =
          state.trace ++ more ∧
        ∀ event ∈ more, event.Quiet := by
  refine ⟨_, parallelFor_trace arrays, ?_⟩
  intro event member
  split at member
  · rw [List.mem_singleton.mp member]
    trivial
  · cases member

variable (env ssl) in
/-- A parallel region takes steps of the AES layer. -/
theorem parallelFor_aesReaches
    {state : ChunkState AesState}
    (arrays : state.Arrays) :
    AesReaches ssl state.aes
      (parallelFor env (rdrandEncBufferCells ssl) state).aes := by
  cases encrypts : state.encrypts with
  | false =>
      have same :=
        (parallelFor_sameBesides env (rdrandEncBufferCells ssl)
          encrypts).aes
      rw [same]
      exact .start
  | true =>
      rw [(parallelFor_encrypted env _ arrays encrypts).aes]
      exact encBufferCells_reaches _ _

/-- A parallel region keeps the output fresh ciphertext. -/
theorem Ciphered.region
    {state : ChunkState AesState}
    {since : Nat}
    (ciphered :
      Ciphered ssl env.device start since state.trace state.aes)
    (arrays : state.Arrays) :
    Ciphered ssl env.device start since
      (parallelFor env (rdrandEncBufferCells ssl) state).trace
      (parallelFor env (rdrandEncBufferCells ssl) state).aes := by
  obtain ⟨more, trace, quiet⟩ := parallelFor_quiet env ssl arrays
  rw [trace]
  exact
    (ciphered.append quiet).advance (Nat.le_refl _)
      (parallelFor_aesReaches env ssl arrays).encryptCalls_le

/-- Before its write a finished pass has added no output. -/
theorem Finishing.quiet
    {state base : ChunkState AesState}
    (arrays : state.Arrays)
    (finishing :
      Finishing env (rdrandEncBufferCells ssl) state base) :
    ∃ more,
      base.prepared.trace = state.trace ++ more ∧
        ∀ event ∈ more, event.Quiet := by
  obtain ⟨more, trace, quiet⟩ := parallelFor_quiet env ssl arrays
  refine ⟨more ++ base.generatedEvents, ?_, ?_⟩
  · rw [prepared_trace, finishing.trace, trace, List.append_assoc]
  · intro event member
    rcases List.mem_append.mp member with inRegion | recorded
    · exact quiet event inRegion
    · exact generatedEvents_quiet base event recorded

/-- The buffer that an encrypting pass writes is fresh ciphertext. -/
theorem Finishing.encryptsFresh
    {config : Cnf}
    {state base : ChunkState AesState}
    {since : Nat}
    (setup : state.Setup config)
    (chunkBounded : config.chunkSize ≤ maxChunkSize)
    (guarded : state.guard = true)
    (ordered : state.Ordered)
    (condition : PassEncrypts env ssl state)
    (kept : state.CipheredSince env ssl start since)
    (encrypts : state.encrypts = true)
    (finishing :
      Finishing env (rdrandEncBufferCells ssl) state base) :
    ∀ cell ∈ CellMemory.window (base.memory .buf) 0 (8 * base.bufSize),
      EncryptsFresh ssl env.device since state.position
        state.aes.encryptCalls cell := by
  have flags :
      state.config.aesFlag = true ∧ state.firstRun = false := by
    simpa [ChunkState.encrypts] using encrypts
  obtain ⟨currentNotBuf, _, _⟩ := setup.arrays.separate flags.1
  have stateBounded : state.config.chunkSize ≤ maxChunkSize := by
    rw [setup.request.chunkSize]
    exact chunkBounded
  have front :=
    condition.encrypted encrypts fun generates =>
      finishing.slicesComplete setup.arrays stateBounded generates
        condition.recoverable
  have within : 8 * state.bufSize ≤ state.encryptionSource.length := by
    rw [ChunkState.encryptionSource, CellMemory.window_length]
    exact setup.bufSize_le
  have buf :
      base.memory .buf =
        CellMemory.store (state.memory .buf) 0
          (rdrandEncBufferCells ssl state.aes
            state.encryptionSource).written :=
    (finishing.memory currentNotBuf.symm).trans
      (parallelFor_encrypted env _ setup.arrays encrypts).buf
  intro cell member
  obtain ⟨offset, below, rfl⟩ := CellMemory.mem_window.mp member
  rw [finishing.sameSetup.bufSize] at below
  rw [Nat.zero_add, buf]
  obtain ⟨plain, found, encryption⟩ :=
    encBufferCells_front front within (state.memory .buf) below
  have here := (CellMemory.window_found found).2
  rw [Nat.zero_add] at here
  subst here
  exact
    ⟨_, kept.waiting encrypts guarded offset below,
      ordered.previous offset, encryption⟩

/-- The write of an encrypting pass keeps the output fresh ciphertext. -/
theorem afterWrite_ciphered
    {config : Cnf}
    {state base : ChunkState AesState}
    {since : Nat}
    (setup : state.Setup config)
    (chunkBounded : config.chunkSize ≤ maxChunkSize)
    (guarded : state.guard = true)
    (ordered : state.Ordered)
    (condition : PassEncrypts env ssl state)
    (kept : state.CipheredSince env ssl start since)
    (encrypts : state.encrypts = true)
    (finishing :
      Finishing env (rdrandEncBufferCells ssl) state base) :
    Ciphered ssl env.device start state.position
      (base.prepared.afterWrite env).trace base.aes := by
  obtain ⟨more, before, quiet⟩ := finishing.quiet setup.arrays
  have made :=
    finishing.encryptsFresh setup chunkBounded guarded ordered
      condition kept encrypts
  simp only [ChunkState.afterWrite, prepared_memory, prepared_bufSize,
    prepared_aes, before]
  exact (kept.ciphered.append quiet).output kept.reached made _ _

/-- A finished pass with AES keeps the output fresh ciphertext. -/
theorem finished_ciphered
    {config : Cnf}
    {state base : ChunkState AesState}
    {since : Nat}
    (setup : state.Setup config)
    (chunkBounded : config.chunkSize ≤ maxChunkSize)
    (guarded : state.guard = true)
    (ordered : state.Ordered)
    (condition : PassEncrypts env ssl state)
    (kept : state.CipheredSince env ssl start since)
    (finishing :
      Finishing env (rdrandEncBufferCells ssl) state base) :
    Ciphered ssl env.device start state.position
      (base.finished env).trace (base.finished env).aes := by
  have same := finishing.sameSetup
  have baseFlag : base.config.aesFlag = true :=
    same.request.aesFlag.trans kept.flag
  rw [finished_aes]
  unfold ChunkState.finished
  cases first : state.firstRun with
  | true =>
      have skips : base.skipsWrite = true := by
        simp [ChunkState.skipsWrite, baseFlag, same.firstRun, first]
      obtain ⟨more, before, quiet⟩ := finishing.quiet setup.arrays
      have calls :=
        (parallelFor_aesReaches env ssl setup.arrays).encryptCalls_le
      rw [if_pos skips, finishing.aes]
      simp only [before]
      exact (kept.ciphered.append quiet).advance kept.reached calls
  | false =>
      have writes : ¬ base.skipsWrite = true := by
        simp [ChunkState.skipsWrite, same.firstRun, first]
      have encrypts : state.encrypts = true := by
        simp [ChunkState.encrypts, kept.flag, first]
      rw [if_neg writes]
      exact
        afterWrite_ciphered setup chunkBounded guarded ordered
          condition kept encrypts finishing

/-- After a generating pass with AES the filled buffer waits. -/
theorem Finishing.waiting
    {config : Cnf}
    {state base : ChunkState AesState}
    (setup : state.Setup config)
    (flag : config.aesFlag = true)
    (chunkBounded : config.chunkSize ≤ maxChunkSize)
    (generates : state.generates = true)
    (recoverable : Recoverable env (rdrandEncBufferCells ssl) state)
    (finishing :
      Finishing env (rdrandEncBufferCells ssl) state base)
    {offset : Nat}
    (below : offset < 8 * (base.finished env).bufSize) :
    ((base.finished env).memory
      (base.finished env).genPrevious offset).FromDevice
        env.device state.position := by
  have same := finishing.sameSetup
  have baseFlag : base.config.aesFlag = true :=
    (same.request.aesFlag.trans setup.request.aesFlag).trans flag
  have stateBounded : state.config.chunkSize ≤ maxChunkSize := by
    rw [setup.request.chunkSize]
    exact chunkBounded
  rw [finished_bufSize, same.bufSize] at below
  rw [finished_memory, finished_genPrevious, if_pos baseFlag,
    same.genCurrent]
  apply WordFrom.cell
  exact
    finishing.fresh setup.arrays stateBounded generates recoverable
      (by omega)

/-- A pass that drains the pipeline is the last one. -/
theorem generates_of_next_guard
    {Aes : Type}
    {config : Cnf}
    {state next : ChunkState Aes}
    (split : config.Split)
    (flag : config.aesFlag = true)
    (counterFits : config.CounterFits)
    (setup : state.Setup config)
    (guarded : state.guard = true)
    (setupNext : next.Setup config)
    (counted : next.n = ChunkState.increment state.n)
    (guardedNext : next.guard = true) :
    state.generates = true := by
  by_contra drains
  simp only [ChunkState.generates, Bool.or_eq_true, decide_eq_true_eq,
    not_or, setup.request.chunkCount, setup.request.bytes] at drains
  have finite : 0 < config.bytes := Nat.pos_of_ne_zero drains.2
  have thread : config.aesThread = 1 := by
    simp [Cnf.aesThread, flag]
  rw [setup.guard_iff finite split.passes_lt] at guarded
  rw [setupNext.guard_iff finite split.passes_lt, counted]
    at guardedNext
  have last : config.chunkCount ≠ uintModulus - 1 :=
    fun same => counterFits ⟨flag, finite, same⟩
  have bounded := setup.nBounded
  have increments : ChunkState.increment state.n = state.n + 1 :=
    Nat.mod_eq_of_lt (by omega)
  omega

/-- A pass of a loop with AES keeps the output fresh ciphertext. -/
theorem chunkPass_ciphered
    {config : Cnf}
    {state next : ChunkState AesState}
    (split : config.Split)
    (counterFits : config.CounterFits)
    (setup : state.Setup config)
    (guarded : state.guard = true)
    (ordered : state.Ordered)
    (condition : PassEncrypts env ssl state)
    (kept : ∃ since, state.CipheredSince env ssl start since)
    (pass :
      chunkPass env (rdrandEncBufferCells ssl) state = .again next) :
    ∃ since, next.CipheredSince env ssl start since := by
  obtain ⟨since, kept⟩ := kept
  have advances :=
    parallelFor_advances env (rdrandEncBufferCells ssl) state
  have setupNext := chunkPass_setup setup pass
  have flag : config.aesFlag = true :=
    setup.request.aesFlag.symm.trans kept.flag
  have flagNext : next.config.aesFlag = true :=
    setupNext.request.aesFlag.trans flag
  cases chunkPass_again pass with
  | rerun underflows threads result =>
      refine ⟨since, ⟨flagNext, ?_, ?_⟩, ?_⟩
      · rw [result]
        exact Nat.le_trans kept.reached advances
      · rw [result]
        exact kept.ciphered.region setup.arrays
      · intro encrypts _ offset below
        rw [result] at encrypts below ⊢
        change
          ((parallelFor env (rdrandEncBufferCells ssl) state).memory
            state.genPrevious offset).FromDevice env.device since
        rw [parallelFor_genPrevious setup.arrays kept.flag]
        refine kept.waiting encrypts guarded offset ?_
        change offset < 8 * (state.bufSize - state.config.chunkSize)
          at below
        omega
  | finish base finishing writes result =>
      refine ⟨state.position, ⟨flagNext, ?_, ?_⟩, ?_⟩
      · rw [result, finished_position]
        exact Nat.le_trans advances finishing.position
      · rw [result]
        exact
          finished_ciphered setup split.chunkBounded guarded ordered
            condition kept finishing
      · intro _ guardedNext offset below
        have generates :=
          generates_of_next_guard split flag counterFits setup guarded
            setupNext (by rw [result, finished_n, finishing.sameSetup.n])
            guardedNext
        subst result
        exact
          finishing.waiting setup flag split.chunkBounded generates
            condition.recoverable below

/-- An early exit keeps the output fresh ciphertext. -/
theorem chunkPass_leave_ciphered
    {config : Cnf}
    {state final : ChunkState AesState}
    {exit : ChunkExit}
    (chunkBounded : config.chunkSize ≤ maxChunkSize)
    (setup : state.Setup config)
    (guarded : state.guard = true)
    (ordered : state.Ordered)
    (condition : PassEncrypts env ssl state)
    (kept : ∃ since, state.CipheredSince env ssl start since)
    (pass :
      chunkPass env (rdrandEncBufferCells ssl) state =
        .leave exit final) :
    ∃ since, final.CipheredUpTo env ssl start since := by
  obtain ⟨since, kept⟩ := kept
  have advances :=
    parallelFor_advances env (rdrandEncBufferCells ssl) state
  cases chunkPass_leave pass with
  | hardwareProblem underflows oneThread short =>
      refine ⟨since, kept.flag, ?_, ?_⟩
      · exact
          Nat.le_trans kept.reached
            (Nat.le_trans advances (slow_advances state))
      · exact kept.ciphered.region setup.arrays
  | shortWrite base finishing writes short =>
      have same := finishing.sameSetup
      have encrypts : state.encrypts = true := by
        have flags := writes
        simp only [ChunkState.skipsWrite, same.request.aesFlag,
          kept.flag, same.firstRun, Bool.true_and] at flags
        simp [ChunkState.encrypts, kept.flag, flags]
      have written :=
        afterWrite_ciphered setup chunkBounded guarded ordered
          condition kept encrypts finishing
      rw [← prepared_aes base] at written
      refine ⟨state.position, ?_, ?_, written⟩
      · change base.prepared.config.aesFlag = true
        rw [prepared_config]
        exact same.request.aesFlag.trans kept.flag
      · change state.position ≤ base.prepared.position
        rw [prepared_position]
        exact Nat.le_trans advances finishing.position

/-- A run of `generate_chunk` keeps the output fresh ciphertext. -/
theorem generateChunk_ciphered
    {config : Cnf}
    (split : config.Split)
    (flag : config.aesFlag = true)
    (counterFits : config.CounterFits)
    (start : AesState)
    (passes : Nat)
    (conditions :
      ∀ earlier state,
        earlier < passes →
        generateChunk env (rdrandEncBufferCells ssl) config start
          earlier = .running state →
        state.guard = true →
        PassEncrypts env ssl state) :
    ∃ since,
      (generateChunk env (rdrandEncBufferCells ssl) config start
        passes).state.CipheredUpTo env ssl start since := by
  refine Loop.run_outcome
    (fun state : ChunkState AesState =>
      ∃ since, state.CipheredSince env ssl start since)
    (fun state : ChunkState AesState =>
      ∃ since, state.CipheredUpTo env ssl start since)
    passes ?_ ?_ ?_ ?_
  · refine ⟨0, ⟨flag, Nat.le_refl 0, ciphered_start⟩, ?_⟩
    intro encrypts
    simp [ChunkState.encrypts, chunkStart] at encrypts
  · intro earlier before after within run guarded pass kept
    exact
      chunkPass_ciphered split counterFits (chunkLoop_setup run) guarded
        (chunkLoop_ordered flag run)
        (conditions earlier before within run guarded) kept pass
  · intro earlier before final exit within run guarded pass kept
    exact
      chunkPass_leave_ciphered split.chunkBounded (chunkLoop_setup run)
        guarded (chunkLoop_ordered flag run)
        (conditions earlier before within run guarded) kept pass
  · rintro state ⟨since, kept⟩
    exact ⟨since, kept.toCipheredUpTo⟩

variable (env) in
/-- The fill of the ending is sound. -/
theorem endingFill_sound (state : ChunkState AesState) :
    (endingFill env state).Sound env.device state.position
      env.endingAddress 1 state.config.endingBytes :=
  (generateWithMetod_sound env.device state.config env.endingAddress
    (Nat.mod_lt _ (by decide)) retryLimit state.position).enlarge
      (Nat.mod_le _ _)

/-- A complete fill of the ending gives bytes of the device only. -/
theorem endingSource_fromDevice
    {state : ChunkState AesState}
    (complete :
      (endingFill env state).generated = state.config.endingBytes)
    {offset : Nat}
    {plain : Cell}
    (found : (endingSource env state)[offset]? = some plain) :
    plain.FromDevice env.device state.position ∧
      ∀ step,
        plain.origin = .step step →
        step < (endingFill env state).position := by
  have sound := endingFill_sound env state
  obtain ⟨inside, here⟩ := CellMemory.window_found found
  have covers :=
    sound.complete complete (env.endingAddress + offset)
      (Nat.le_add_right _ _) (by omega)
  refine ⟨?_, ?_⟩
  · rw [← here]
    exact sound.applyTo_covered _ covers
  · intro step origin
    refine
      sound.applyTo_before ?_ (env.endingAddress + offset) step
        (by rw [here]; exact origin)
    intro query step origin
    rw [env.stack_origin] at origin
    cases origin

/-- An ending that is encrypted keeps the output fresh ciphertext. -/
theorem generateEnding_ciphered
    {state : ChunkState AesState}
    {since : Nat}
    (condition : EndingEncrypts env ssl state)
    (kept : state.CipheredUpTo env ssl start since) :
    EveryOutput (FreshCiphertext ssl env.device start)
      (generateEnding env (rdrandEncBufferCells ssl) state).trace := by
  unfold generateEnding
  simp only [kept.flag, if_true]
  split
  · exact kept.ciphered.outputs
  · next incomplete =>
      have complete :
          (endingFill env state).generated = state.config.endingBytes :=
        not_not.mp incomplete
      have within :
          state.config.endingBytes ≤ (endingSource env state).length := by
        rw [endingSource, CellMemory.window_length]
      have made :
          ∀ cell ∈ CellMemory.window
              (CellMemory.store (env.stack .generateEnding .buf) 0
                (rdrandEncBufferCells ssl state.aes
                  (endingSource env state)).written)
              0 state.config.endingBytes,
            EncryptsFresh ssl env.device state.position
              (endingFill env state).position
              state.aes.encryptCalls cell := by
        intro cell member
        obtain ⟨offset, below, rfl⟩ := CellMemory.mem_window.mp member
        rw [Nat.zero_add]
        obtain ⟨plain, found, encryption⟩ :=
          encBufferCells_front (condition complete) within
            (env.stack .generateEnding .buf) below
        obtain ⟨fromDevice, before⟩ :=
          endingSource_fromDevice complete found
        exact ⟨plain, fromDevice, before, encryption⟩
      have advanced :=
        (kept.ciphered.advance kept.reached (Nat.le_refl _)).append
          (List.forall_mem_singleton.mpr
            (show Event.Quiet
              (.encrypted (endingSource env state)
                (rdrandEncBufferCells ssl state.aes
                  (endingSource env state)).written) from trivial))
      exact
        (advanced.output (endingFill_sound env state).advances made
          _ _).outputs

end Passes

section SmallBuffers

variable
  {env : Environment}
  {ssl : OpenSsl}
  {start : AesState}

/-- A run takes steps of the AES layer only. -/
theorem chunkLoop_aesReaches
    {config : Cnf}
    {passes : Nat}
    {state : ChunkState AesState}
    (running :
      (chunkLoop env (rdrandEncBufferCells ssl)).run passes
        (chunkStart env config start) = .running state) :
    AesReaches ssl start state.aes := by
  refine Loop.running_invariant
    (fun _ reached => AesReaches ssl start reached.aes)
    .start ?_ running
  intro count before after run _ pass reaches
  have arrays := (chunkLoop_setup run).arrays
  have region := reaches.trans (parallelFor_aesReaches env ssl arrays)
  cases chunkPass_again pass with
  | rerun underflows threads result =>
      rw [result]
      exact region
  | finish base finishing writes result =>
      rw [result, finished_aes, finishing.aes]
      exact region

/--
Without failures every pass meets the condition, as long as the buffer is
smaller than a chunk of `rdrand_enc_buffer`.
-/
theorem passEncrypts_of_small
    (neverFails : env.device.NeverFails)
    (cipher : ssl.CipherSucceeds)
    {config : Cnf}
    (split : config.Split)
    (realMethod : config.method ≠ .methodsCount)
    (small : config.roundBytes < maxBufferSize)
    {state : ChunkState AesState}
    (setup : state.Setup config)
    (keyed : state.aes.Keyed) :
    PassEncrypts env ssl state where
  recoverable :=
    recoverable_of_neverFails neverFails split realMethod setup
  encrypted := by
    intro _ _
    refine .tail ?_ ⟨cipher.encrypt _, keyed⟩
    rw [List.length_map, ChunkState.encryptionSource,
      CellMemory.window_length, setup.bufSizeBytes]
    exact small

end SmallBuffers

/-- The amount of 2048 bytes, one full chunk, with one thread and AES. -/
def oneFullChunk : Cnf :=
  (parseArgs LibC.decimal false
    [.amount "2048", .threads "1", .aesCtr] defaultConfigSetting).2

end RdRand
