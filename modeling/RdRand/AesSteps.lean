import RdRand.AesBuffers

namespace RdRand

/-!
# Steps of the AES layer

Between two calls and inside them the state changes by two kinds of steps
only: a call of `counter` and an encryption of payload.  The lemmas here say
what these steps, and the functions they are made of, leave alone.
-/

section Frames

variable (ssl : OpenSsl)

@[simp] theorem encryptUpdate_keys (input : List Byte) (state : AesState) :
    (encryptUpdate ssl input state).state.cfg.keys = state.cfg.keys := by
  unfold encryptUpdate
  split
  · split <;> rfl
  · rfl

@[simp] theorem encryptUpdate_keysType
    (input : List Byte)
    (state : AesState) :
    (encryptUpdate ssl input state).state.cfg.keysType =
      state.cfg.keysType := by
  unfold encryptUpdate
  split
  · split <;> rfl
  · rfl

@[simp] theorem encryptUpdate_log (input : List Byte) (state : AesState) :
    (encryptUpdate ssl input state).state.log = state.log := by
  unfold encryptUpdate
  split
  · split <;> rfl
  · rfl

@[simp] theorem encryptUpdate_encryptCalls
    (input : List Byte)
    (state : AesState) :
    (encryptUpdate ssl input state).state.encryptCalls =
      state.encryptCalls + 1 := by
  unfold encryptUpdate
  split
  · split <;> rfl
  · rfl

@[simp] theorem encryptUpdate_randCalls
    (input : List Byte)
    (state : AesState) :
    (encryptUpdate ssl input state).state.randCalls =
      state.randCalls := by
  unfold encryptUpdate
  split
  · split <;> rfl
  · rfl

@[simp] theorem encryptUpdate_initCalls
    (input : List Byte)
    (state : AesState) :
    (encryptUpdate ssl input state).state.initCalls =
      state.initCalls := by
  unfold encryptUpdate
  split
  · split <;> rfl
  · rfl

@[simp] theorem encryptUpdate_keyed (input : List Byte) (state : AesState) :
    (encryptUpdate ssl input state).state.cfg.en.keyed =
      state.cfg.en.keyed := by
  unfold encryptUpdate
  split
  · split <;> rfl
  · rfl

/-- A cipher call that succeeds writes as many bytes as it reads. -/
theorem encryptUpdate_length
    {input output : List Byte}
    {state : AesState}
    (success : (encryptUpdate ssl input state).output = some output) :
    output.length = input.length := by
  unfold encryptUpdate at success
  split at success
  · split at success
    · cases success
    · next produced made =>
        cases success
        exact CipherContext.output_length made
  · cases success

/-- What a context puts out is the input and a keystream. -/
theorem encryptUpdate_output
    {input output : List Byte}
    {state : AesState}
    (success : (encryptUpdate ssl input state).output = some output) :
    ∃ key nonce,
      state.cfg.en.keyed = some (key, nonce) ∧
        output =
          CounterMode.apply (ssl.keystream key nonce)
            state.cfg.en.used input := by
  unfold encryptUpdate at success
  split at success
  · split at success
    · cases success
    · next produced made =>
        cases success
        obtain ⟨⟨key, nonce⟩, keyed, rfl⟩ :=
          Option.map_eq_some_iff.mp made
        exact ⟨key, nonce, keyed, rfl⟩
  · cases success

/-- A cipher call that is bound to succeed. -/
theorem encryptUpdate_done
    {state : AesState}
    {key nonce : List Byte}
    (keyed : state.cfg.en.keyed = some (key, nonce))
    (succeeds : ssl.encryptOk state.encryptCalls = true)
    (input : List Byte) :
    encryptUpdate ssl input state =
      { output :=
          some
            (CounterMode.apply (ssl.keystream key nonce)
              state.cfg.en.used input)
        state :=
          { state with
            encryptCalls := state.encryptCalls + 1
            cfg :=
              { state.cfg with
                en := state.cfg.en.advance input.length } } } := by
  unfold encryptUpdate CipherContext.output
  simp only [succeeds, if_true, keyed, Option.map_some]

/-- Whether a cipher call succeeds does not depend on its input. -/
theorem encryptUpdate_isSome
    (input : List Byte)
    (state : AesState) :
    (encryptUpdate ssl input state).output.isSome =
      (ssl.encryptOk state.encryptCalls &&
        state.cfg.en.keyed.isSome) := by
  unfold encryptUpdate CipherContext.output
  cases ssl.encryptOk state.encryptCalls <;>
    cases state.cfg.en.keyed <;> rfl

/-- The state after a cipher call depends on the length of the input only. -/
theorem encryptUpdate_state
    (input : List Byte)
    (state : AesState) :
    (encryptUpdate ssl input state).state =
      if ssl.encryptOk state.encryptCalls &&
          state.cfg.en.keyed.isSome then
        { state with
          encryptCalls := state.encryptCalls + 1
          cfg :=
            { state.cfg with
              en := state.cfg.en.advance input.length } }
      else
        { state with encryptCalls := state.encryptCalls + 1 } := by
  unfold encryptUpdate CipherContext.output
  cases ssl.encryptOk state.encryptCalls <;>
    cases state.cfg.en.keyed <;> rfl

@[simp] theorem randBytes_cfg (num : Nat) (state : AesState) :
    (randBytes ssl num state).state.cfg = state.cfg :=
  rfl

@[simp] theorem randBytes_log (num : Nat) (state : AesState) :
    (randBytes ssl num state).state.log = state.log :=
  rfl

@[simp] theorem keyToOpenssl_keys (state : AesState) :
    (keyToOpenssl ssl state).state.cfg.keys = state.cfg.keys := by
  unfold keyToOpenssl
  simp only
  split <;> rfl

@[simp] theorem keyToOpenssl_keysType (state : AesState) :
    (keyToOpenssl ssl state).state.cfg.keysType = state.cfg.keysType := by
  unfold keyToOpenssl
  simp only
  split <;> rfl

@[simp] theorem keyToOpenssl_randCalls (state : AesState) :
    (keyToOpenssl ssl state).state.randCalls = state.randCalls := by
  unfold keyToOpenssl
  simp only
  split <;> rfl

@[simp] theorem keyToOpenssl_encryptCalls (state : AesState) :
    (keyToOpenssl ssl state).state.encryptCalls =
      state.encryptCalls := by
  unfold keyToOpenssl
  simp only
  split <;> rfl

/-- A keying that succeeds takes the current key and nonce into use. -/
theorem keyToOpenssl_done
    {state : AesState}
    (init : ssl.initOk state.initCalls = true) :
    (keyToOpenssl ssl state).state.cfg.en.keyed =
        some
          ((keyToOpenssl ssl state).state.cfg.keys.currentKey,
            (keyToOpenssl ssl state).state.cfg.keys.currentNonce) ∧
      (keyToOpenssl ssl state).state.cfg.en.used = 0 := by
  unfold keyToOpenssl
  simp only [init, if_true]
  exact ⟨rfl, rfl⟩

/-- What `key_generate` does with the bytes it draws. -/
theorem keyGenerate_drawn
    {state : AesState}
    {keyBytes nonceBytes : List Byte}
    (keyDrawn :
      ssl.randBytes state.randCalls state.cfg.keys.keyLength =
        some keyBytes)
    (nonceDrawn :
      ssl.randBytes (state.randCalls + 1) state.cfg.keys.keyLength =
        some nonceBytes) :
    keyGenerate ssl state =
      { success := true
        state :=
          (keyToOpenssl ssl
            (storeNonce nonceBytes
              (storeKey keyBytes
                { state with
                  randCalls := state.randCalls + 2 }))).state } := by
  simp only [keyGenerate, randBytes, keyDrawn, storeKey, nonceDrawn,
    storeNonce]

@[simp] theorem keysChangeRotation_keysType (state : AesState) :
    (keysChangeRotation ssl state).state.cfg.keysType =
      state.cfg.keysType := by
  unfold keysChangeRotation
  split
  · rfl
  · simp

@[simp] theorem keysChange_keysType (state : AesState) :
    (keysChange ssl state).state.cfg.keysType = state.cfg.keysType := by
  unfold keysChange
  simp only
  split <;> simp [selectNext]

@[simp] theorem keyGenerate_keysType (state : AesState) :
    (keyGenerate ssl state).state.cfg.keysType = state.cfg.keysType := by
  unfold keyGenerate
  simp only
  split
  · simp
  · split <;> simp [storeKey, storeNonce]

@[simp] theorem keysRandomize_keysType (state : AesState) :
    (keysRandomize ssl state).state.cfg.keysType =
      state.cfg.keysType := by
  unfold keysRandomize
  simp only
  split
  · simp
  · simp [setCounter]

@[simp] theorem keysChangeRotation_initCalls (state : AesState) :
    (keysChangeRotation ssl state).state.initCalls =
      state.initCalls := by
  unfold keysChangeRotation
  split
  · rfl
  · simp

@[simp] theorem keysChangeRotation_keyed (state : AesState) :
    (keysChangeRotation ssl state).state.cfg.en.keyed =
      state.cfg.en.keyed := by
  unfold keysChangeRotation
  split
  · rfl
  · simp

/-- A rotation of a selected key succeeds, with two cipher calls. -/
theorem keysChangeRotation_selected
    {state : AesState}
    (selected : state.cfg.keys.keyCurrent ≠ none) :
    (keysChangeRotation ssl state).success = true ∧
      (keysChangeRotation ssl state).state.encryptCalls =
        state.encryptCalls + 2 := by
  unfold keysChangeRotation
  rw [if_neg selected]
  simp

/-- A change to a given key succeeds, whatever OpenSSL does. -/
theorem keysChange_eq (state : AesState) :
    keysChange ssl state =
      { success := true
        state :=
          (keyToOpenssl ssl
            (keysChangeRotation ssl (selectNext state)).state).state } := by
  have selected : (selectNext state).cfg.keys.keyCurrent ≠ none := by
    simp [selectNext]
  unfold keysChange
  simp only [(keysChangeRotation_selected ssl selected).1, if_true]

/-- Changing the key to a given one takes two cipher calls. -/
@[simp] theorem keysChange_encryptCalls (state : AesState) :
    (keysChange ssl state).state.encryptCalls =
      state.encryptCalls + 2 := by
  have selected : (selectNext state).cfg.keys.keyCurrent ≠ none := by
    simp [selectNext]
  rw [keysChange_eq, keyToOpenssl_encryptCalls,
    (keysChangeRotation_selected ssl selected).2]
  rfl

@[simp] theorem keyGenerate_encryptCalls (state : AesState) :
    (keyGenerate ssl state).state.encryptCalls =
      state.encryptCalls := by
  unfold keyGenerate
  simp only
  split
  · rfl
  · split
    · rfl
    · simp [storeKey, storeNonce, randBytes]

@[simp] theorem keysRandomize_encryptCalls (state : AesState) :
    (keysRandomize ssl state).state.encryptCalls =
      state.encryptCalls := by
  unfold keysRandomize
  simp only
  split <;> rfl

/-- `counter` changes no key type. -/
@[simp] theorem counter_keysType (num : Nat) (state : AesState) :
    (counter ssl num state).state.cfg.keysType = state.cfg.keysType := by
  unfold counter
  split
  · split <;> simp [setCounter]
  · simp [setCounter]

@[simp] theorem encryptPayload_keys
    (input : List Byte)
    (state : AesState) :
    (encryptPayload ssl input state).state.cfg.keys = state.cfg.keys := by
  unfold encryptPayload
  simp only
  split <;> simp

@[simp] theorem encryptPayload_keysType
    (input : List Byte)
    (state : AesState) :
    (encryptPayload ssl input state).state.cfg.keysType =
      state.cfg.keysType := by
  unfold encryptPayload
  simp only
  split <;> simp

@[simp] theorem encryptPayload_randCalls
    (input : List Byte)
    (state : AesState) :
    (encryptPayload ssl input state).state.randCalls =
      state.randCalls := by
  unfold encryptPayload
  simp only
  split <;> simp

@[simp] theorem encryptPayload_encryptCalls
    (input : List Byte)
    (state : AesState) :
    (encryptPayload ssl input state).state.encryptCalls =
      state.encryptCalls + 1 := by
  unfold encryptPayload
  simp only
  split <;> simp

/-- A cipher call that fails on payload is counted, and does nothing else. -/
theorem encryptPayload_refused
    {input : List Byte}
    {state : AesState}
    (failed : (encryptPayload ssl input state).output = none) :
    (state.cfg.en.keyed = none ∨
        ssl.encryptOk state.encryptCalls = false) ∧
      (encryptPayload ssl input state).state =
        { state with encryptCalls := state.encryptCalls + 1 } := by
  have updated : (encryptUpdate ssl input state).output = none :=
    failed
  have failure :
      (ssl.encryptOk state.encryptCalls &&
        state.cfg.en.keyed.isSome) = false := by
    rw [← encryptUpdate_isSome ssl input, updated, Option.isSome_none]
  refine ⟨?_, ?_⟩
  · rcases Bool.and_eq_false_iff.mp failure with refuses | unkeyed
    · exact .inr refuses
    · exact .inl (Option.isNone_iff_eq_none.mp (by simpa using unkeyed))
  · unfold encryptPayload
    simp only [updated, encryptUpdate_state, failure]
    rfl

/-- What a cipher call that succeeds on payload puts out, and leaves. -/
theorem encryptPayload_encrypted
    {input output : List Byte}
    {state : AesState}
    (done : (encryptPayload ssl input state).output = some output) :
    ∃ key nonce,
      state.cfg.en.keyed = some (key, nonce) ∧
        ssl.encryptOk state.encryptCalls = true ∧
        output =
          CounterMode.apply (ssl.keystream key nonce)
            state.cfg.en.used input ∧
        (encryptPayload ssl input state).state =
          { state with
            encryptCalls := state.encryptCalls + 1
            cfg :=
              { state.cfg with
                en := state.cfg.en.advance input.length }
            log := state.log ++ [.payload input.length] } := by
  have updated : (encryptUpdate ssl input state).output = some output :=
    done
  have success :
      (ssl.encryptOk state.encryptCalls &&
        state.cfg.en.keyed.isSome) = true := by
    rw [← encryptUpdate_isSome ssl input, updated, Option.isSome_some]
  obtain ⟨key, nonce, keyed, made⟩ := encryptUpdate_output ssl updated
  refine ⟨key, nonce, keyed, (Bool.and_eq_true_iff.mp success).1, made, ?_⟩
  unfold encryptPayload
  simp only [updated, encryptUpdate_state, success, if_true,
    encryptUpdate_length ssl updated]

/-- A successful encryption of payload advances the context. -/
theorem encryptPayload_cfg
    {input output : List Byte}
    {state : AesState}
    (done : (encryptPayload ssl input state).output = some output) :
    (encryptPayload ssl input state).state.cfg =
      { state.cfg with en := state.cfg.en.advance input.length } := by
  obtain ⟨_, _, _, _, _, after⟩ := encryptPayload_encrypted ssl done
  rw [after]

end Frames

/-- What has been logged since an earlier state. -/
def eventsSince (before after : AesState) : List AesEvent :=
  after.log.drop before.log.length

theorem eventsSince_eq
    {before after : AesState}
    {events : List AesEvent}
    (appended : after.log = before.log ++ events) :
    eventsSince before after = events := by
  rw [eventsSince, appended, List.drop_left]

/-- A step of the encrypting functions. -/
inductive CountingCall where
  | count (num : Nat)
  | encrypt (input : List Byte)
  deriving Repr, DecidableEq

section Counting

variable (ssl : OpenSsl)

/-- The state after a step. -/
def CountingCall.perform (state : AesState) : CountingCall → AesState
  | .count num => (counter ssl num state).state
  | .encrypt input => (encryptPayload ssl input state).state

/-- The state after a sequence of steps. -/
def runCounting (calls : List CountingCall) (state : AesState) : AesState :=
  calls.foldl (CountingCall.perform ssl) state

@[simp] theorem runCounting_append_singleton
    (calls : List CountingCall)
    (call : CountingCall)
    (state : AesState) :
    runCounting ssl (calls ++ [call]) state =
      call.perform ssl (runCounting ssl calls state) := by
  simp [runCounting]

end Counting

/-- Reachability by calls of `counter` and encryptions of payload. -/
inductive AesReaches (ssl : OpenSsl) (start : AesState) :
    AesState → Prop where
  | start : AesReaches ssl start start
  | counter
      {state : AesState}
      (reached : AesReaches ssl start state)
      {num : Nat}
      (bounded : num ≤ maxBufferSize) :
      AesReaches ssl start (counter ssl num state).state
  | payload
      {state : AesState}
      (reached : AesReaches ssl start state)
      (input : List Byte) :
      AesReaches ssl start (encryptPayload ssl input state).state

section Reachability

variable {ssl : OpenSsl} {start : AesState}

theorem AesReaches.trans
    {middle final : AesState}
    (first : AesReaches ssl start middle)
    (second : AesReaches ssl middle final) :
    AesReaches ssl start final := by
  induction second with
  | start =>
      exact first
  | counter _ bounded inductionHypothesis =>
      exact .counter inductionHypothesis bounded
  | payload _ input inductionHypothesis =>
      exact .payload inductionHypothesis input

/-- Reachable states have the same type of keys. -/
theorem AesReaches.keysType
    {later : AesState}
    (reaches : AesReaches ssl start later) :
    later.cfg.keysType = start.cfg.keysType := by
  induction reaches with
  | start =>
      rfl
  | counter _ _ inductionHypothesis =>
      exact (counter_keysType ssl _ _).trans inductionHypothesis
  | payload _ input inductionHypothesis =>
      exact (encryptPayload_keysType ssl input _).trans inductionHypothesis

/-- `rdrand_enc_buffer` takes such steps only. -/
theorem encBufferChunks_reaches
    (chunks : Nat)
    (source : List Byte)
    (state : AesState) :
    AesReaches ssl state
      (encBufferChunks ssl chunks source state).state := by
  induction chunks generalizing source state with
  | zero =>
      unfold encBufferChunks encBufferTail
      have payload :
          AesReaches ssl state (encryptPayload ssl source state).state :=
        .payload .start source
      split
      · simp only
        split
        · exact payload
        · exact payload
      · exact .start
  | succ chunks inductionHypothesis =>
      have counted :
          AesReaches ssl state
            (counter ssl maxBufferSize state).state :=
        .counter .start (Nat.le_refl _)
      have encrypted :
          AesReaches ssl state
            (encryptPayload ssl (source.take maxBufferSize)
              (counter ssl maxBufferSize state).state).state :=
        .payload counted _
      unfold encBufferChunks
      simp only
      split
      · split
        · exact encrypted
        · exact encrypted.trans (inductionHypothesis _ _)
      · exact counted

/-- `rdrand_get_bytes_aes_ctr` takes such steps only. -/
theorem ctrChunks_reaches
    (acquire : Nat → Nat → Acquired)
    {sizes : List Nat}
    (bounded : ∀ size ∈ sizes, size ≤ maxBufferSize)
    (position : Nat)
    (state : AesState) :
    AesReaches ssl state
      (ctrChunks ssl acquire sizes position state).state := by
  induction sizes generalizing position state with
  | nil =>
      exact .start
  | cons size rest inductionHypothesis =>
      have counted :
          AesReaches ssl state (counter ssl size state).state :=
        .counter .start (bounded size List.mem_cons_self)
      have boundedRest : ∀ later ∈ rest, later ≤ maxBufferSize :=
        fun later member => bounded later (List.mem_cons_of_mem _ member)
      unfold ctrChunks
      simp only
      split
      · exact counted
      · next bytes acquired =>
          have encrypted :
              AesReaches ssl state
                (encryptPayload ssl bytes
                  (counter ssl size state).state).state :=
            .payload counted _
          split
          · exact encrypted
          · exact encrypted.trans (inductionHypothesis boundedRest _ _)

/-- No chunk is larger than the buffer. -/
theorem chunkSizes_le
    (count : Nat) :
    ∀ size ∈ chunkSizes count, size ≤ maxBufferSize := by
  intro size member
  have tailSmall :=
    Nat.mod_lt count (show 0 < maxBufferSize by decide)
  unfold chunkSizes at member
  rcases List.mem_append.mp member with full | tail
  · exact Nat.le_of_eq (List.eq_of_mem_replicate full)
  · split at tail
    · rw [List.mem_singleton.mp tail]
      exact Nat.le_of_lt tailSmall
    · cases tail

/-- Every sequence of calls takes such steps only. -/
theorem runCalls_reaches
    (device : Device)
    (buffer : StackBuffer)
    (calls : List AesCall)
    (run : AesRun) :
    AesReaches ssl run.state
      (runCalls ssl device buffer calls run).state := by
  induction calls generalizing run with
  | nil =>
      exact .start
  | cons call rest inductionHypothesis =>
      have first :
          AesReaches ssl run.state
            (runCall ssl device buffer run call).state := by
        cases call with
        | getBytesAesCtr count retryLimit =>
            exact ctrChunks_reaches _ (chunkSizes_le count) _ _
        | encBuffer source =>
            exact encBufferChunks_reaches _ _ _
      exact first.trans (inductionHypothesis _)

end Reachability

end RdRand
