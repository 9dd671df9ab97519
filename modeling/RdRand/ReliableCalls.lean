import RdRand.AesSetUp

namespace RdRand

/-!
# Calls that do not fail

Where OpenSSL never fails, the cipher context stays keyed, every encryption of
payload succeeds, and `counter` reports success if it changes the key and
failure if it does not.
-/

/-- The cipher context has a key. -/
def AesState.Keyed (state : AesState) : Prop :=
  state.cfg.en.keyed.isSome = true

section Changes

variable {ssl : OpenSsl} {state : AesState}

/-- Keying keeps the context keyed, and keys it if it succeeds. -/
theorem keyToOpenssl_keyed_iff (state : AesState) :
    (keyToOpenssl ssl state).state.Keyed ↔
      ssl.initOk state.initCalls = true ∨ state.Keyed := by
  unfold keyToOpenssl AesState.Keyed
  simp only
  split
  · next success =>
      simp [success, CipherContext.key]
  · next failure =>
      simp [failure]

/-- A change to a given key keys the context like `key_to_openssl`. -/
theorem keysChange_keyed_iff (state : AesState) :
    (keysChange ssl state).state.Keyed ↔
      ssl.initOk state.initCalls = true ∨ state.Keyed := by
  rw [keysChange_eq, keyToOpenssl_keyed_iff,
    keysChangeRotation_initCalls, AesState.Keyed,
    keysChangeRotation_keyed]
  rfl

/-- `key_generate` succeeds exactly where both its draws do. -/
theorem keyGenerate_success_iff (state : AesState) :
    (keyGenerate ssl state).success = true ↔
      (ssl.randBytes state.randCalls
          state.cfg.keys.keyLength).isSome = true ∧
        (ssl.randBytes (state.randCalls + 1)
          state.cfg.keys.keyLength).isSome = true := by
  unfold keyGenerate randBytes
  simp only
  split
  · next failed =>
      simp [failed]
  · next keyBytes keyDrawn =>
      simp only [storeKey, keyDrawn, Option.isSome_some, true_and]
      split
      · next failed =>
          simp [failed]
      · next nonceBytes nonceDrawn =>
          simp [nonceDrawn]

/-- A generated key keys the context like `key_to_openssl`. -/
theorem keyGenerate_keyed_iff
    (success : (keyGenerate ssl state).success = true) :
    (keyGenerate ssl state).state.Keyed ↔
      ssl.initOk state.initCalls = true ∨ state.Keyed := by
  obtain ⟨keyDrew, nonceDrew⟩ := (keyGenerate_success_iff state).mp success
  obtain ⟨keyBytes, keyDrawn⟩ := Option.isSome_iff_exists.mp keyDrew
  obtain ⟨nonceBytes, nonceDrawn⟩ :=
    Option.isSome_iff_exists.mp nonceDrew
  rw [keyGenerate_drawn ssl keyDrawn nonceDrawn, keyToOpenssl_keyed_iff]
  rfl

/-- `counter` succeeds exactly where it changes the key and can do so. -/
theorem counter_success_iff_drawn (num : Nat) :
    (counter ssl num state).success = true ↔
      KeyChangeDue num state ∧
        (state.cfg.keysType = .keysGenerated →
          (ssl.randBytes state.randCalls
              state.cfg.keys.keyLength).isSome = true ∧
            (ssl.randBytes (state.randCalls + 1)
              state.cfg.keys.keyLength).isSome = true) := by
  unfold counter
  split
  · next due =>
      rw [and_iff_right due]
      cases type : state.cfg.keysType with
      | keysGiven =>
          simp [keysChange_eq]
      | keysGenerated =>
          simp only [keyGenerate_success_iff, forall_const]
  · next notDue =>
      simp [notDue]

/-- After a key change the context is keyed like by `key_to_openssl`. -/
theorem counter_keyed_iff
    {num : Nat}
    (success : (counter ssl num state).success = true) :
    (counter ssl num state).state.Keyed ↔
      ssl.initOk state.initCalls = true ∨ state.Keyed := by
  have due := ((counter_success_iff_drawn num).mp success).1
  unfold counter at success ⊢
  rw [if_pos due] at success ⊢
  cases type : state.cfg.keysType with
  | keysGiven =>
      exact keysChange_keyed_iff state
  | keysGenerated =>
      simp only [type] at success ⊢
      rw [← keyGenerate_keyed_iff success]
      unfold keysRandomize
      simp only
      split <;> rfl

end Changes

section Keyed

variable (ssl : OpenSsl)

theorem encryptUpdate_keeps_keyed
    {state : AesState}
    (keyed : state.Keyed)
    (input : List Byte) :
    (encryptUpdate ssl input state).state.Keyed := by
  unfold AesState.Keyed
  rw [encryptUpdate_keyed]
  exact keyed

theorem keyGenerate_keeps_keyed
    {state : AesState}
    (keyed : state.Keyed) :
    (keyGenerate ssl state).state.Keyed := by
  unfold keyGenerate
  simp only
  split
  · exact keyed
  · split
    · exact keyed
    · exact (keyToOpenssl_keyed_iff _).mpr (.inr keyed)

/-- `counter` leaves the context keyed. -/
theorem counter_keeps_keyed
    {state : AesState}
    (keyed : state.Keyed)
    (num : Nat) :
    (counter ssl num state).state.Keyed := by
  unfold counter
  split
  · split
    · exact (keysChange_keyed_iff _).mpr (.inr keyed)
    · have generated := keyGenerate_keeps_keyed ssl keyed
      unfold keysRandomize
      simp only
      split
      · exact generated
      · exact generated
  · exact keyed

/-- An encryption of payload leaves the context keyed. -/
theorem encryptPayload_keeps_keyed
    {state : AesState}
    (keyed : state.Keyed)
    (input : List Byte) :
    (encryptPayload ssl input state).state.Keyed := by
  have updated := encryptUpdate_keeps_keyed ssl keyed input
  unfold encryptPayload
  simp only
  split
  · exact updated
  · exact updated

/-- Every state reached from a keyed one is keyed. -/
theorem AesReaches.keyed
    {ssl : OpenSsl}
    {start later : AesState}
    (reaches : AesReaches ssl start later)
    (keyed : start.Keyed) :
    later.Keyed := by
  induction reaches with
  | start =>
      exact keyed
  | counter _ _ inductionHypothesis =>
      exact counter_keeps_keyed ssl inductionHypothesis _
  | payload _ input inductionHypothesis =>
      exact encryptPayload_keeps_keyed ssl inductionHypothesis input

/-- A generated key keys the context where keying never fails. -/
theorem keyGenerate_keys_context
    {ssl : OpenSsl}
    (init : ∀ call, ssl.initOk call = true)
    {state : AesState}
    (success : (keyGenerate ssl state).success = true) :
    (keyGenerate ssl state).state.Keyed :=
  (keyGenerate_keyed_iff success).mpr (.inl (init _))

/-- Setting keys keys the context. -/
theorem JustSet.keyed
    {ssl : OpenSsl}
    {amount keyLength : Nat}
    {keysType : KeysType}
    {state : AesState}
    (set : JustSet ssl amount keyLength keysType state)
    (init : ∀ call, ssl.initOk call = true) :
    state.Keyed := by
  cases set with
  | given _ success =>
      unfold rdrandSetAesKeys at success ⊢
      split at success
      · cases success
      · next accepted =>
          rw [if_neg accepted]
          simp only at success ⊢
          split at success
          · next allocated =>
              rw [if_pos allocated]
              exact (keyToOpenssl_keyed_iff _).mpr (.inl (init _))
          · cases success
  | random success =>
      unfold rdrandSetAesRandomKey at success ⊢
      simp only at success ⊢
      split at success
      · next allocated =>
          rw [if_pos allocated]
          exact keyGenerate_keys_context init success
      · cases success

end Keyed

section Budget

variable (ssl : OpenSsl)

/-- The counter that a call of `RAND_bytes` in `keys_randomize` draws. -/
def drawnCounter (call : Nat) : Nat :=
  randomCounter (littleEndian ((ssl.randBytes call 4).getD []))

/--
The budget a key change sets: `MAX_COUNTER` for given keys, and what
`keys_randomize` draws, after the key and the nonce, for generated ones.
-/
def changeBudget (state : AesState) : Nat :=
  match state.cfg.keysType with
  | .keysGiven => maxCounter
  | .keysGenerated => drawnCounter ssl (state.randCalls + 2)

end Budget

section Success

variable {ssl : OpenSsl} {state : AesState}

/-- `counter` succeeds exactly where it changes the key. -/
theorem counter_success_iff
    (rand : ssl.RandSucceeds)
    (num : Nat) :
    (counter ssl num state).success = true ↔ KeyChangeDue num state :=
  (counter_success_iff_drawn num).trans
    (and_iff_left fun _ => ⟨rand _ _, rand _ _⟩)

/-- A call of `counter` that finds a key change due sets a new budget. -/
theorem counter_budget
    (rand : ssl.RandSucceeds)
    {num : Nat}
    (due : KeyChangeDue num state) :
    (counter ssl num state).state.cfg.keys.nextCounter =
      changeBudget ssl state := by
  unfold counter changeBudget
  rw [if_pos due]
  cases state.cfg.keysType with
  | keysGiven =>
      rfl
  | keysGenerated =>
      obtain ⟨keyBytes, keyDrawn⟩ :=
        rand.draws state.randCalls state.cfg.keys.keyLength
      obtain ⟨nonceBytes, nonceDrawn⟩ :=
        rand.draws (state.randCalls + 1) state.cfg.keys.keyLength
      obtain ⟨buf, bufDrawn⟩ := rand.draws (state.randCalls + 2) 4
      simp only [keyGenerate_drawn ssl keyDrawn nonceDrawn,
        keysRandomize, randBytes, keyToOpenssl_randCalls, storeNonce,
        storeKey, bufDrawn, drawnCounter]
      rfl

/-- With a key, a cipher that never fails encrypts every payload. -/
theorem encryptPayload_done
    (cipher : ssl.CipherSucceeds)
    (keyed : state.Keyed)
    (input : List Byte) :
    ∃ output, (encryptPayload ssl input state).output = some output := by
  have success :
      (encryptPayload ssl input state).output.isSome = true := by
    change (encryptUpdate ssl input state).output.isSome = true
    rw [encryptUpdate_isSome, cipher.encrypt, Bool.true_and]
    exact keyed
  exact Option.isSome_iff_exists.mp success

end Success

end RdRand
