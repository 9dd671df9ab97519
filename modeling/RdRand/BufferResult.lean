import RdRand.EncryptingPaths

namespace RdRand

/-!
# The result of `rdrand_enc_buffer`

With no OpenSSL call failing, a buffer is encrypted chunk by chunk, each chunk
in the context that `counter` leaves, and the tail in the context it finds.
`rdrand_enc_buffer` does so only as far as `counter` changes a key at each of
the chunks: where the key can be kept, `counter` returns 0.
-/

/-- A destination is the encryption of a source, by full chunks and a tail. -/
inductive CtrEncryption
    (ssl : OpenSsl) :
    AesState → List Byte → List Byte → Prop where
  | nothing
      {state : AesState} :
      CtrEncryption ssl state [] []
  | tail
      {state : AesState}
      {source dest : List Byte}
      (small : source.length < maxBufferSize)
      (made : state.cfg.en.output ssl source = some dest) :
      CtrEncryption ssl state source dest
  | chunk
      {state : AesState}
      {source front rest : List Byte}
      (full : maxBufferSize ≤ source.length)
      (made :
        (counter ssl maxBufferSize state).state.cfg.en.output ssl
            (source.take maxBufferSize) =
          some front)
      (later :
        CtrEncryption ssl (state.afterChunk ssl source)
          (source.drop maxBufferSize) rest) :
      CtrEncryption ssl state source (front ++ rest)

/-- A call returns 1 and leaves the encryption of its source. -/
structure BufferEncrypted
    (ssl : OpenSsl)
    (state : AesState)
    (source : List Byte)
    (encrypted : Encrypted) : Prop where
  returned : encrypted.rc = 1
  whole : encrypted.written.length = source.length
  encryption :
    CtrEncryption ssl state source (encrypted.written.map Prod.snd)

section Encryption

variable {ssl : OpenSsl} {state : AesState}

/-- An encryption is as long as its source. -/
theorem CtrEncryption.length_eq
    {source dest : List Byte}
    (encryption : CtrEncryption ssl state source dest) :
    dest.length = source.length := by
  induction encryption with
  | nothing =>
      rfl
  | tail small made =>
      exact CipherContext.output_length made
  | chunk full made later inductionHypothesis =>
      have front := CipherContext.output_length made
      rw [List.length_take, Nat.min_eq_left full] at front
      rw [List.length_append, front, inductionHypothesis,
        List.length_drop]
      omega

/-- A successful cipher call puts out what its context produces. -/
theorem encryptPayload_made
    {input output : List Byte}
    (done : (encryptPayload ssl input state).output = some output) :
    state.cfg.en.output ssl input = some output := by
  change (encryptUpdate ssl input state).output = some output at done
  obtain ⟨key, nonce, keyed, rfl⟩ := encryptUpdate_output ssl done
  rw [CipherContext.output, keyed]
  rfl

/-- A full chunk at which the key changes is encrypted. -/
theorem chunkEncrypts_of_due
    (cipher : ssl.CipherSucceeds)
    (rand : ssl.RandSucceeds)
    (due : KeyChangeDue maxBufferSize state) :
    ChunkEncrypts ssl state where
  due := due
  drawn := fun _ => ⟨rand _ _, rand _ _⟩
  keyed := .inl (cipher.init _)
  succeeds := cipher.encrypt _

/-- The tail of a source is encrypted in the context that it finds. -/
theorem encBufferTail_encrypts
    (cipher : ssl.CipherSucceeds)
    (keyed : state.Keyed)
    {source : List Byte}
    (small : source.length < maxBufferSize) :
    (encBufferTail ssl source state).rc = 1 ∧
      CtrEncryption ssl state source
        ((encBufferTail ssl source state).written.map Prod.snd) := by
  unfold encBufferTail
  split
  · obtain ⟨output, done⟩ := encryptPayload_done cipher keyed source
    simp only [done, withCall_snd, true_and]
    exact .tail small (encryptPayload_made done)
  · next empty =>
      rw [List.length_eq_zero_iff.mp (not_not.mp empty)]
      exact ⟨rfl, .nothing⟩

/-- Where the key changes at every full chunk, the source is encrypted. -/
theorem encBufferChunks_encrypts
    (cipher : ssl.CipherSucceeds)
    (rand : ssl.RandSucceeds)
    (keyed : state.Keyed)
    {chunks : Nat}
    {source : List Byte}
    (share : source.length / maxBufferSize = chunks)
    (due : FullChunksDue ssl chunks state) :
    (encBufferChunks ssl chunks source state).rc = 1 ∧
      CtrEncryption ssl state source
        ((encBufferChunks ssl chunks source state).written.map
          Prod.snd) := by
  have chunkPositive : 0 < maxBufferSize := by
    decide
  induction chunks generalizing source state with
  | zero =>
      exact
        encBufferTail_encrypts cipher keyed
          ((Nat.div_eq_zero_iff_lt chunkPositive).mp share)
  | succ chunks inductionHypothesis =>
      obtain ⟨full, restShare⟩ := source_full_of_share share
      have firstDue : KeyChangeDue maxBufferSize state :=
        .inr (due.1 (Nat.succ_pos chunks))
      obtain ⟨output, done, _, sameCode, written⟩ :=
        encBufferChunks_done (chunkEncrypts_of_due cipher rand firstDue)
          full chunks
      have afterKeyed : (state.afterChunk ssl source).Keyed :=
        encryptPayload_keeps_keyed ssl
          (counter_keeps_keyed ssl keyed maxBufferSize) _
      obtain ⟨returned, later⟩ :=
        inductionHypothesis afterKeyed restShare
          ((fullChunksDue_succ_iff rand firstDue chunks _).mp due)
      rw [sameCode, written, List.map_append, withCall_snd]
      exact ⟨returned, .chunk full (encryptPayload_made done) later⟩

/-- A call returns 1 only where the key changes at every full chunk. -/
theorem fullChunksDue_of_returned
    (rand : ssl.RandSucceeds)
    {chunks : Nat}
    {source : List Byte}
    (share : source.length / maxBufferSize = chunks)
    (returned : (encBufferChunks ssl chunks source state).rc = 1) :
    FullChunksDue ssl chunks state := by
  induction chunks generalizing source state with
  | zero =>
      exact fullChunksDue_zero state
  | succ chunks inductionHypothesis =>
      obtain ⟨full, restShare⟩ := source_full_of_share share
      by_cases encrypts : ChunkEncrypts ssl state
      · obtain ⟨_, _, _, sameCode, _⟩ :=
          encBufferChunks_done encrypts full chunks
        rw [sameCode] at returned
        exact
          (fullChunksDue_succ_iff rand encrypts.due chunks _).mpr
            (inductionHypothesis restShare returned)
      · rw [(encBufferChunks_failed encrypts chunks).1] at returned
        cases returned

/--
`rdrand_enc_buffer` encrypts a buffer, in every state reached after the keys
were set, exactly where each of its full chunks changes the key.
-/
theorem rdrandEncBuffer_encrypted_iff
    {amount keyLength : Nat}
    {keysType : KeysType}
    {start : AesState}
    (set : JustSet ssl amount keyLength keysType start)
    (reaches : AesReaches ssl start state)
    (cipher : ssl.CipherSucceeds)
    (rand : ssl.RandSucceeds)
    (source : List Byte) :
    BufferEncrypted ssl state source (rdrandEncBuffer ssl source state) ↔
      FullChunksDue ssl (source.length / maxBufferSize) state := by
  have keyed := reaches.keyed (set.keyed cipher.init)
  constructor
  · intro encrypted
    exact fullChunksDue_of_returned rand rfl encrypted.returned
  · intro due
    obtain ⟨returned, encryption⟩ :=
      encBufferChunks_encrypts cipher rand keyed rfl due
    have whole := encryption.length_eq
    rw [List.length_map] at whole
    exact ⟨returned, whole, encryption⟩

end Encryption

/-- After 4096 bytes the next chunk changes the key, and is encrypted. -/
theorem rdrandEncBuffer_encrypted_spentKeys :
    BufferEncrypted .sample spentKeys (List.replicate 2048 0)
      (rdrandEncBuffer .sample (List.replicate 2048 0) spentKeys) :=
  (rdrandEncBuffer_encrypted_iff twoKeys_justSet
    (runCalls_reaches Device.counting .zeroed [.getBytesAesCtr 4096 10]
      { position := 0, state := twoKeys .sample })
    OpenSsl.sample_cipherSucceeds OpenSsl.sample_randSucceeds
    (List.replicate 2048 0)).mpr (by decide +kernel)

/-- Right after the keys were set a full chunk is an error. -/
theorem rdrandEncBuffer_gives_up :
    JustSet .sample 2 16 .keysGiven (twoKeys .sample) ∧
      (rdrandEncBuffer .sample (List.replicate 2048 0)
        (twoKeys .sample)).rc = 0 ∧
      ¬ BufferEncrypted .sample (twoKeys .sample)
        (List.replicate 2048 0)
        (rdrandEncBuffer .sample (List.replicate 2048 0)
          (twoKeys .sample)) := by
  have error :
      (rdrandEncBuffer .sample (List.replicate 2048 0)
        (twoKeys .sample)).rc = 0 := by
    decide +kernel
  refine ⟨twoKeys_justSet, error, ?_⟩
  intro encrypted
  have returned := encrypted.returned
  rw [error] at returned
  cases returned

end RdRand
