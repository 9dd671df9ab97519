import RdRand.ProgramProcess
import RdRand.RandomKeys

namespace RdRand

/-!
# What the program writes when it cannot encrypt

`main` does not look at the result of `rdrand_set_aes_random_key`, nor does
`generate` let anything depend on the result of `rdrand_enc_buffer`.  If
OpenSSL never lets a buffer be encrypted, the arrays that should hold the
encrypted bytes are never stored to, and the program puts out what they held
when their functions began.
-/

open ControlLoop

section Generator

variable
  {Aes : Type}
  {env : Environment}
  {encBuffer : EncBuffer Aes}
  {blocked : Aes → Prop}

/-- A byte that `buf` of one of the functions held when it began. -/
def Environment.HeldBefore (env : Environment) (cell : Cell) : Prop :=
  ∃ frame offset, env.stack frame .buf offset = cell

/-- From such states on, encrypting a buffer writes nothing. -/
structure Blocks
    (encBuffer : EncBuffer Aes)
    (blocked : Aes → Prop) : Prop where
  written :
    ∀ {aes}, blocked aes → ∀ source, (encBuffer aes source).written = []
  kept :
    ∀ {aes},
      blocked aes → ∀ source, blocked (encBuffer aes source).aes

/-- What a loop that never encrypts keeps of its output. -/
structure ChunkState.Silent
    (env : Environment)
    (blocked : Aes → Prop)
    (state : ChunkState Aes) : Prop where
  flag : state.config.aesFlag = true
  blocked : blocked state.aes
  buf : state.memory .buf = env.stack .generateChunk .buf
  output : ∀ cell ∈ outputCells state.trace, env.HeldBefore cell

/-- Before the loop nothing has been put out. -/
theorem chunkStart_silent
    {config : Cnf}
    (flag : config.aesFlag = true)
    {aes : Aes}
    (block : blocked aes) :
    (chunkStart env config aes).Silent env blocked where
  flag := flag
  blocked := block
  buf := rfl
  output := nofun

/-- The same of a parallel region. -/
structure Region.Silent
    (env : Environment)
    (blocked : Aes → Prop)
    (region : Region Aes) : Prop where
  blocked : blocked region.aes
  buf : region.memory .buf = env.stack .generateChunk .buf
  output : ∀ cell ∈ outputCells region.trace, env.HeldBefore cell

/-- A parallel region puts nothing out, and leaves `buf` as it was. -/
theorem parallelFor_silent
    (blocks : Blocks encBuffer blocked)
    {state : ChunkState Aes}
    (arrays : state.Arrays)
    (silent : state.Silent env blocked) :
    (parallelFor env encBuffer state).Silent env blocked := by
  have notCurrent : Buffer.buf ≠ state.genCurrent :=
    (arrays.separate silent.flag).1.symm
  cases encrypts : state.encrypts with
  | false =>
      have region := parallelFor_sameBesides env encBuffer encrypts
      refine ⟨?_, ?_, ?_⟩
      · rw [region.aes]
        exact silent.blocked
      · rw [region.memory .buf notCurrent]
        exact silent.buf
      · rw [region.trace]
        exact silent.output
  | true =>
      have region := parallelFor_encrypted env encBuffer arrays encrypts
      have written : (state.encryption encBuffer).written = [] :=
        blocks.written silent.blocked _
      refine ⟨?_, ?_, ?_⟩
      · rw [region.aes]
        exact blocks.kept silent.blocked _
      · rw [region.buf, written, CellMemory.store_nil]
        exact silent.buf
      · rw [region.trace, outputCells_append, outputCells_cons,
          Event.outputCells_encrypted, outputCells_nil, List.append_nil,
          List.append_nil]
        exact silent.output

/-- The state after a silent region is silent. -/
theorem filled_silent
    (blocks : Blocks encBuffer blocked)
    {state : ChunkState Aes}
    (arrays : state.Arrays)
    (silent : state.Silent env blocked) :
    (state.filled env encBuffer).Silent env blocked :=
  have region : (parallelFor env encBuffer state).Silent env blocked :=
    parallelFor_silent blocks arrays silent
  ⟨silent.flag, region.blocked, region.buf, region.output⟩

/-- A slow refill fills another array than `buf`. -/
theorem refilled_silent
    {state : ChunkState Aes}
    (arrays : state.Arrays)
    (silent : state.Silent env blocked)
    (slow : SlowFill) :
    (state.refilled slow).Silent env blocked where
  flag := silent.flag
  blocked := silent.blocked
  buf := by
    have notCurrent : Buffer.buf ≠ state.genCurrent :=
      (arrays.separate silent.flag).1.symm
    simp only [ChunkState.refilled, Memory.set_other _ notCurrent]
    exact silent.buf
  output := silent.output

/-- A pass whose buffer is filled is still silent. -/
theorem Finishing.silent
    (blocks : Blocks encBuffer blocked)
    {state base : ChunkState Aes}
    (arrays : state.Arrays)
    (silent : state.Silent env blocked)
    (finishing : Finishing env encBuffer state base) :
    base.Silent env blocked := by
  have filled : (state.filled env encBuffer).Silent env blocked :=
    filled_silent blocks arrays silent
  cases finishing with
  | region recovered =>
      exact filled
  | refill underflows oneThread whole =>
      have sameArrays : (state.filled env encBuffer).Arrays :=
        ⟨arrays.size, arrays.plain, arrays.separate⟩
      exact refilled_silent sameArrays filled _

/-- What is written is what `buf` held before. -/
theorem outputEvents_silent
    {state : ChunkState Aes}
    (silent : state.Silent env blocked) :
    ∀ cell ∈ outputCells (state.outputEvents env),
      env.HeldBefore cell := by
  unfold ChunkState.outputEvents
  split
  · exact nofun
  · intro cell member
    rw [outputCells_cons, Event.outputCells_output, outputCells_nil,
      List.append_nil] at member
    obtain ⟨offset, _, rfl⟩ :=
      CellMemory.mem_window.mp (List.mem_of_mem_take member)
    rw [silent.buf]
    exact ⟨.generateChunk, _, rfl⟩

/-- A finished pass has put out nothing else, whatever it wrote. -/
theorem finished_silent
    {state : ChunkState Aes}
    (silent : state.Silent env blocked) :
    (state.finished env).Silent env blocked where
  flag := by
    rw [finished_config]
    exact silent.flag
  blocked := by
    rw [finished_aes]
    exact silent.blocked
  buf := by
    rw [finished_memory]
    exact silent.buf
  output := by
    rw [finished_trace, outputCells_append, outputCells_append,
      outputCells_quiet (generatedEvents_quiet state), List.append_nil]
    intro cell member
    rcases List.mem_append.mp member with earlier | written
    · exact silent.output cell earlier
    · exact outputEvents_silent silent cell written

/-- A short write puts out nothing else, either. -/
theorem afterWrite_silent
    {state : ChunkState Aes}
    (silent : state.Silent env blocked)
    (writes : state.skipsWrite = false) :
    (state.prepared.afterWrite env).Silent env blocked := by
  have finished : (state.finished env).Silent env blocked :=
    finished_silent silent
  unfold ChunkState.finished at finished
  rw [writes, if_neg Bool.false_ne_true] at finished
  exact
    ⟨finished.flag, finished.blocked, finished.buf, finished.output⟩

/-- The chunk loop is silent to its end. -/
theorem generateChunk_silent
    (blocks : Blocks encBuffer blocked)
    {config : Cnf}
    (flag : config.aesFlag = true)
    {aes : Aes}
    (block : blocked aes)
    (passes : Nat) :
    (generateChunk env encBuffer config aes passes).state.Silent
      env blocked := by
  refine Loop.run_outcome
    (fun state : ChunkState Aes => state.Silent env blocked)
    (fun state : ChunkState Aes => state.Silent env blocked)
    passes (chunkStart_silent flag block) ?_ ?_ id
  · intro earlier before after within run guarded pass silent
    have arrays := (chunkLoop_setup run).arrays
    cases chunkPass_again pass with
    | rerun underflows threads result =>
        have filled : (before.filled env encBuffer).Silent env blocked :=
          filled_silent blocks arrays silent
        rw [result]
        exact ⟨filled.flag, filled.blocked, filled.buf, filled.output⟩
    | finish base finishing writes result =>
        rw [result]
        exact finished_silent (finishing.silent blocks arrays silent)
  · intro earlier before final exit within run guarded pass silent
    have setup := chunkLoop_setup run
    cases chunkPass_leave pass with
    | hardwareProblem underflows oneThread short =>
        have sameArrays : (before.filled env encBuffer).Arrays :=
          ⟨setup.arrays.size, setup.arrays.plain, setup.arrays.separate⟩
        exact
          refilled_silent sameArrays
            (filled_silent blocks setup.arrays silent) _
    | shortWrite base finishing writes short =>
        exact
          afterWrite_silent
            (finishing.silent blocks setup.arrays silent) writes

/-- The ending puts out what its own array held when it began. -/
theorem generateEnding_silent
    (blocks : Blocks encBuffer blocked)
    {state : ChunkState Aes}
    (silent : state.Silent env blocked) :
    ∀ cell ∈ outputCells (generateEnding env encBuffer state).trace,
      env.HeldBefore cell := by
  unfold generateEnding
  simp only [silent.flag, if_true]
  split
  · exact silent.output
  · rw [blocks.written silent.blocked, CellMemory.store_nil,
      outputCells_append, outputCells_append]
    intro cell member
    simp only [outputCells_cons, Event.outputCells_encrypted,
      Event.outputCells_output, outputCells_nil, List.append_nil]
      at member
    rcases List.mem_append.mp member with earlier | written
    · exact silent.output cell earlier
    · obtain ⟨offset, _, rfl⟩ :=
        CellMemory.mem_window.mp (List.mem_of_mem_take written)
      exact ⟨.generateEnding, _, rfl⟩

/-- A run that never encrypts puts out nothing that was stored by it. -/
theorem generate_silent
    (blocks : Blocks encBuffer blocked)
    {config : Cnf}
    (flag : config.aesFlag = true)
    {aes : Aes}
    (block : blocked aes)
    {passes : Nat}
    {generated : Generated Aes}
    (ended :
      generate env encBuffer config aes passes = some generated) :
    ∀ cell ∈ outputCells generated.trace, env.HeldBefore cell := by
  have silent :
      (generateChunk env encBuffer config aes passes).state.Silent env blocked :=
    generateChunk_silent blocks flag block passes
  unfold generate at ended
  split at ended
  · cases ended
  · next final status =>
      rw [status] at silent
      cases ended
      exact generateEnding_silent blocks silent
  · next exit final status =>
      rw [status] at silent
      cases ended
      exact generateEnding_silent blocks silent

end Generator

section Failing

variable {ssl : OpenSsl} {state : AesState}

/-- A function of OpenSSL that never succeeds, and the states it blocks. -/
inductive NeverEncrypts (ssl : OpenSsl) (state : AesState) : Prop where
  | update
      (fails : ∀ call, ssl.encryptOk call = false)
  | init
      (fails : ∀ call, ssl.initOk call = false)
      (unkeyed : ¬ state.Keyed)
  | draw
      (fails : ∀ call num, ssl.randBytes call num = none)
      (generated : state.cfg.keysType = .keysGenerated)
      (unkeyed : ¬ state.Keyed)

/-- Nothing is encrypted in such a state. -/
theorem NeverEncrypts.not_canEncrypt
    (never : NeverEncrypts ssl state) :
    ¬ state.CanEncrypt ssl := by
  rintro ⟨succeeds, keyed⟩
  cases never with
  | update fails =>
      rw [fails] at succeeds
      cases succeeds
  | init _ unkeyed =>
      exact unkeyed keyed
  | draw _ _ unkeyed =>
      exact unkeyed keyed

theorem NeverEncrypts.payload
    (never : NeverEncrypts ssl state)
    (input : List Byte) :
    (encryptPayload ssl input state).output = none := by
  rw [← Option.not_isSome_iff_eq_none, encryptPayload_isSome_iff]
  exact never.not_canEncrypt

/-- Without keys and random bytes there is no new key. -/
theorem keyGenerate_undrawn
    (fails : ∀ call num, ssl.randBytes call num = none) :
    (keyGenerate ssl state).state.Keyed ↔ state.Keyed := by
  rw [keyGenerate_noKey (fails _ _)]
  exact Iff.rfl

theorem keysRandomize_keyed_iff :
    (keysRandomize ssl state).state.Keyed ↔ state.Keyed := by
  unfold keysRandomize
  simp only
  split <;> exact Iff.rfl

/-- Where keying never succeeds, a generated key does not get into use. -/
theorem keyGenerate_uninitialised
    (fails : ∀ call, ssl.initOk call = false)
    (unkeyed : ¬ state.Keyed) :
    ¬ (keyGenerate ssl state).state.Keyed := by
  unfold keyGenerate
  simp only
  split
  · exact unkeyed
  · split
    · exact unkeyed
    · rw [keyToOpenssl_keyed_iff, fails]
      exact fun keyed =>
        keyed.elim Bool.false_ne_true unkeyed

/-- `counter` gets nothing encrypted, either. -/
theorem NeverEncrypts.counter
    (never : NeverEncrypts ssl state)
    (num : Nat) :
    NeverEncrypts ssl (counter ssl num state).state := by
  cases never with
  | update fails =>
      exact .update fails
  | init fails unkeyed =>
      refine .init fails ?_
      unfold RdRand.counter
      split
      · split
        · change ¬ (keysChange ssl state).state.Keyed
          rw [keysChange_keyed_iff, fails]
          exact fun keyed => keyed.elim Bool.false_ne_true unkeyed
        · rw [keysRandomize_keyed_iff]
          exact keyGenerate_uninitialised fails unkeyed
      · exact unkeyed
  | draw fails generated unkeyed =>
      refine .draw fails ((counter_keysType ssl num state).trans generated) ?_
      unfold RdRand.counter
      split
      · rw [generated]
        simp only
        rw [keysRandomize_keyed_iff, keyGenerate_undrawn fails]
        exact unkeyed
      · exact unkeyed

theorem NeverEncrypts.encryptPayload
    (never : NeverEncrypts ssl state)
    (input : List Byte) :
    NeverEncrypts ssl (encryptPayload ssl input state).state := by
  have unkeyed :
      ¬ state.Keyed →
      ¬ (RdRand.encryptPayload ssl input state).state.Keyed := by
    unfold AesState.Keyed
    rw [encryptPayload_keyed]
    exact id
  cases never with
  | update fails =>
      exact .update fails
  | init fails before =>
      exact .init fails (unkeyed before)
  | draw fails generated before =>
      exact
        .draw fails ((encryptPayload_keysType ssl input state).trans generated)
          (unkeyed before)

/-- Steps of the AES layer do not get out of these states. -/
theorem NeverEncrypts.reaches
    {later : AesState}
    (never : NeverEncrypts ssl state)
    (reaches : AesReaches ssl state later) :
    NeverEncrypts ssl later := by
  induction reaches with
  | start =>
      exact never
  | counter _ _ inductionHypothesis =>
      exact inductionHypothesis.counter _
  | payload _ input inductionHypothesis =>
      exact inductionHypothesis.encryptPayload input

/-- `rdrand_enc_buffer` leaves its destination as it is in these states. -/
theorem neverEncrypts_blocks :
    Blocks (rdrandEncBufferCells ssl) (NeverEncrypts ssl) where
  written := by
    intro state never source
    have nothing :
        (rdrandEncBuffer ssl (source.map Cell.value) state).written =
          [] := by
      unfold rdrandEncBuffer
      cases (source.map Cell.value).length / maxBufferSize with
      | zero =>
          unfold encBufferChunks encBufferTail
          split
          · simp only [never.payload]
          · rfl
      | succ chunks =>
          unfold encBufferChunks
          simp only
          split
          · simp only [(never.counter _).payload]
          · rfl
    simp only [rdrandEncBufferCells, nothing, List.zipWith_nil_left]
  kept never source := never.reaches (encBufferCells_reaches source _)

/-- Setting a random key does not help. -/
theorem rdrandSetAesRandomKey_never
    (fails :
      (∀ call, ssl.encryptOk call = false) ∨
        (∀ call, ssl.initOk call = false) ∨
        ∀ call num, ssl.randBytes call num = none)
    (before : AesState) :
    NeverEncrypts ssl (rdrandSetAesRandomKey ssl before).state := by
  have unkeyed :
      ¬ (keysAllocate ssl 1 defaultKeyLen
          (resetKeys .keysGenerated 0 before)).state.Keyed := by
    unfold AesState.Keyed
    rw [(keysAllocate_unkeyed ssl rfl 1 defaultKeyLen).1]
    exact nofun
  rcases fails with update | init | draw
  · exact .update update
  · refine .init init ?_
    unfold rdrandSetAesRandomKey
    simp only
    split
    · exact keyGenerate_uninitialised init unkeyed
    · exact unkeyed
  · have generated :
        (keysAllocate ssl 1 defaultKeyLen
          (resetKeys .keysGenerated 0 before)).state.cfg.keysType =
            .keysGenerated := by
      unfold keysAllocate
      split
      · rfl
      · simp only
        split <;> rfl
    unfold rdrandSetAesRandomKey
    simp only
    split
    · refine .draw draw ?_ ?_
      · rw [keyGenerate_keysType]
        exact generated
      · rw [keyGenerate_undrawn draw]
        exact unkeyed
    · exact .draw draw generated unkeyed

/-- Setting given keys does not help where keying fails. -/
theorem rdrandSetAesKeys_uninitialised
    (fails : ∀ call, ssl.initOk call = false)
    {before : AesState}
    (unkeyed : ¬ before.Keyed)
    (amount keyLength : Nat)
    (keys nonces : List (List Byte)) :
    ¬ (rdrandSetAesKeys ssl amount keyLength keys nonces
        before).state.Keyed := by
  have allocated :
      ¬ (keysAllocate ssl amount keyLength
          (resetKeys .keysGiven maxCounter before)).state.Keyed := by
    unfold AesState.Keyed
    rw [(keysAllocate_unkeyed ssl rfl amount keyLength).1]
    exact nofun
  unfold rdrandSetAesKeys
  split
  · exact unkeyed
  · simp only
    split
    · simp only [keyToOpenssl_keyed_iff, fails]
      exact fun keyed => keyed.elim Bool.false_ne_true allocated
    · exact allocated

/-- Keys from a file do not help, either. -/
theorem loadKeys_uninitialised
    (fails : ∀ call, ssl.initOk call = false)
    {heap : Nat → List Byte}
    {file : List Char}
    {before : AesState}
    (unkeyed : ¬ before.Keyed)
    {loaded : Loaded}
    (read : loadKeys ssl heap file before = some loaded) :
    ¬ loaded.state.Keyed := by
  obtain ⟨count, next, failure, final, run⟩ :=
    loadKeys_run ssl heap file before
  have adds : Adds ((fileLines file).take count) (loadStart file before) next :=
    run.reads.adds
  have final_unkeyed : ¬ final.aes.Keyed := by
    rw [run.leaves.aes, KeyLoad.aesAfter, adds.aes]
    exact unkeyed
  rw [run.loadKeys_eq] at read
  cases read
  split
  · unfold setLoadedKeys
    split
    · exact final_unkeyed
    · exact rdrandSetAesKeys_uninitialised fails final_unkeyed _ _ _ _
  · exact final_unkeyed

end Failing

section Main

variable {world : World}

/-- A function of OpenSSL that the program needs, and that never succeeds. -/
inductive World.Unencryptable (world : World) : Prop where
  | update
      (fails : ∀ call, world.ssl.encryptOk call = false)
  | init
      (fails : ∀ call, world.ssl.initOk call = false)
  | draw
      (fails : ∀ call num, world.ssl.randBytes call num = none)
      (generated : world.request.aeskeysFilename = none)

theorem aesStart_unkeyed : ¬ aesStart.Keyed :=
  Bool.false_ne_true

/-- However the keys are set, nothing can be encrypted with them. -/
theorem World.setKeys_never
    (unencryptable : world.Unencryptable)
    (encrypts : world.request.aesFlag = true)
    {set : KeysSet}
    (setKeys :
      world.setKeys (computeChunkSize world.request) = some set)
    (settled : set.complaint = none) :
    NeverEncrypts world.ssl set.aes := by
  obtain ⟨_, _, _, _, sameRequest⟩ :=
    computeChunkSize_frame world.request
  rw [sameRequest] at setKeys
  unfold World.setKeys at setKeys
  simp only [encrypts, if_true] at setKeys
  cases name : world.request.aeskeysFilename with
  | none =>
      rw [name] at setKeys
      cases setKeys
      apply rdrandSetAesRandomKey_never
      cases unencryptable with
      | update fails => exact .inl fails
      | init fails => exact .inr (.inl fails)
      | draw fails _ => exact .inr (.inr fails)
  | some name' =>
      cases unencryptable with
      | update fails =>
          exact .update fails
      | init fails =>
          refine .init fails ?_
          rw [name] at setKeys
          simp only at setKeys
          split at setKeys
          · cases setKeys
            cases settled
          · obtain ⟨loaded, read, rfl⟩ := Option.map_eq_some_iff.mp setKeys
            exact loadKeys_uninitialised fails aesStart_unkeyed read
      | draw fails generated =>
          rw [name] at generated
          cases generated

end Main

/-- The library of `OpenSsl.sample`, without random bytes. -/
def OpenSsl.undrawn : OpenSsl :=
  { OpenSsl.sample with
    randBytes := fun _ _ => none
    randBytes_length := nofun }

end RdRand
