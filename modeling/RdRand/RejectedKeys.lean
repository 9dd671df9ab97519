import RdRand.AesLifecycle

namespace RdRand

/-!
# Keys that are rejected

`rdrand_set_aes_keys` rejects keys at two places.  Its own test of the length
comes before everything else.  The tests of `keys_allocate` come after the
mode, the position, the counter, the current key and the cipher context of the
configuration have been replaced.
-/

/-- The states the library can be in, from the start on. -/
inductive AesReachable (ssl : OpenSsl) : AesState → Prop where
  | start : AesReachable ssl aesStart
  | keysCall
      {state : AesState}
      (reachable : AesReachable ssl state)
      (call : KeysCall) :
      AesReachable ssl (call.perform ssl state)
  | encrypting
      {state later : AesState}
      (reachable : AesReachable ssl state)
      (reaches : AesReaches ssl state later) :
      AesReachable ssl later

/-- A cipher context has been made before the configuration points to it. -/
theorem AesReachable.context
    {ssl : OpenSsl}
    {state : AesState}
    (reachable : AesReachable ssl state) :
    ∀ context ∈ state.handles.context,
      context < state.handles.contexts := by
  induction reachable with
  | start =>
      rintro _ ⟨⟩
  | @keysCall state _ call inductionHypothesis =>
      by_cases creates : call.Creates
      · exact (creates.renewed ssl state).context_lt
      · by_cases cleans : call = .cleanAes
        · rw [cleans]
          change
            ∀ context ∈ (rdrandCleanAes state).handles.context,
              context < (rdrandCleanAes state).handles.contexts
          rw [rdrandCleanAes_handles, Handles.cleaned_context,
            Handles.cleaned_contexts]
          exact inductionHypothesis
        · rw [KeysCall.perform_of_not_creates ssl creates cleans]
          exact inductionHypothesis
  | encrypting _ reaches inductionHypothesis =>
      rw [reaches.handles]
      exact inductionHypothesis

section Encrypting

variable
  (ssl : OpenSsl)
  (device : Device)
  (buffer : StackBuffer)

/-- What a call writes. -/
def AesCall.written (run : AesRun) : AesCall → List Byte
  | .getBytesAesCtr count retryLimit =>
      (rdrandGetBytesAesCtr ssl device buffer count retryLimit
        run.position run.state).written
  | .encBuffer source =>
      (rdrandEncBuffer ssl source run.state).written.map Prod.snd

end Encrypting

/--
A state after a call is as good as the one before it: the configuration is the
same, and all later calls write the same bytes.
-/
structure LeftAlone (ssl : OpenSsl) (before after : AesState) : Prop where
  cfg : after.cfg = before.cfg
  encrypts :
    ∀ (device : Device) (buffer : StackBuffer) (calls : List AesCall)
      (call : AesCall) (position : Nat),
      call.written ssl device buffer
          (runCalls ssl device buffer calls
            { position := position, state := after }) =
        call.written ssl device buffer
          (runCalls ssl device buffer calls
            { position := position, state := before })

theorem LeftAlone.refl (ssl : OpenSsl) (state : AesState) :
    LeftAlone ssl state state where
  cfg := rfl
  encrypts := fun _ _ _ _ _ => rfl

/-- A length within the range replaces the cipher context. -/
theorem rdrandSetAesKeys_newContext
    {ssl : OpenSsl}
    {state : AesState}
    (reachable : AesReachable ssl state)
    {amount keyLength : Nat}
    {keys nonces : List (List Byte)}
    (creates :
      (KeysCall.setAesKeys amount keyLength keys nonces).Creates) :
    (rdrandSetAesKeys ssl amount keyLength keys nonces
        state).state.cfg.en.identity ≠
      state.cfg.en.identity := by
  intro same
  have renewed : _ = some state.contexts :=
    (creates.renewed ssl state).context
  change
    (rdrandSetAesKeys ssl amount keyLength keys nonces
      state).state.cfg.en.identity = _ at renewed
  exact Nat.lt_irrefl _
    (reachable.context state.contexts (same.symm.trans renewed))

/-- Keys that are rejected behind the first test leave no key in the cipher. -/
theorem rdrandSetAesKeys_unkeyed
    {ssl : OpenSsl}
    {state : AesState}
    {amount keyLength : Nat}
    {keys nonces : List (List Byte)}
    (rejected :
      (rdrandSetAesKeys ssl amount keyLength keys nonces
        state).success = false)
    (inRange :
      ¬(keyLength ≤ rdrandMinKeyLength ∨
        rdrandMaxKeyLength ≤ keyLength)) :
    (rdrandSetAesKeys ssl amount keyLength keys nonces
          state).state.cfg.en.keyed = none ∧
      (rdrandSetAesKeys ssl amount keyLength keys nonces
          state).state.cfg.keys.nextCounter = maxCounter := by
  unfold rdrandSetAesKeys at rejected ⊢
  rw [if_neg inRange] at rejected ⊢
  simp only at rejected ⊢
  split
  · next allocated =>
      rw [if_pos allocated] at rejected
      cases rejected
  · have unkeyed :
        (resetKeys .keysGiven maxCounter state).cfg.en.keyed = none := rfl
    exact keysAllocate_unkeyed ssl unkeyed amount keyLength

/-- Without a key, and with no key change due, nothing is encrypted. -/
theorem rdrandEncBuffer_unkeyed
    {ssl : OpenSsl}
    {state : AesState}
    (unkeyed : state.cfg.en.keyed = none)
    (counted : state.cfg.keys.nextCounter = maxCounter)
    (source : List Byte) :
    (rdrandEncBuffer ssl source state).written = [] := by
  have notDue : ¬KeyChangeDue maxBufferSize state := by
    unfold KeyChangeDue
    rw [counted]
    decide
  have noOutput :
      (encryptPayload ssl source state).output = none := by
    have noSuccess := encryptUpdate_isSome ssl source state
    rw [unkeyed, Option.isSome_none, Bool.and_false] at noSuccess
    change (encryptUpdate ssl source state).output = none
    exact
      Option.not_isSome_iff_eq_none.mp (Bool.not_eq_true _ ▸ noSuccess)
  unfold rdrandEncBuffer
  cases source.length / maxBufferSize with
  | zero =>
      unfold encBufferChunks encBufferTail
      split
      · simp only [noOutput]
      · rfl
  | succ chunks =>
      have refused :
          (counter ssl maxBufferSize state).success = false := by
        unfold counter
        rw [if_neg notDue]
      unfold encBufferChunks
      simp only [refused, Bool.false_eq_true, if_false]

/--
Rejected keys leave a reachable configuration alone exactly if their length is
outside of the range.  If anything else is wrong with them, no buffer is
encrypted any more.
-/
theorem rdrandSetAesKeys_leftAlone_iff
    {ssl : OpenSsl}
    {state : AesState}
    (reachable : AesReachable ssl state)
    {amount keyLength : Nat}
    {keys nonces : List (List Byte)}
    (rejected :
      (rdrandSetAesKeys ssl amount keyLength keys nonces
        state).success = false) :
    (LeftAlone ssl state
          (rdrandSetAesKeys ssl amount keyLength keys nonces
            state).state ↔
        keyLength ≤ rdrandMinKeyLength ∨
          rdrandMaxKeyLength ≤ keyLength) ∧
      (¬(keyLength ≤ rdrandMinKeyLength ∨
            rdrandMaxKeyLength ≤ keyLength) →
        ∀ source,
          (rdrandEncBuffer ssl source
            (rdrandSetAesKeys ssl amount keyLength keys nonces
              state).state).written = []) := by
  refine ⟨⟨?_, ?_⟩, ?_⟩
  · intro alone
    by_contra inRange
    have creates :
        (KeysCall.setAesKeys amount keyLength keys nonces).Creates := by
      unfold KeysCall.Creates
      omega
    have newContext := rdrandSetAesKeys_newContext reachable creates
    rw [alone.cfg] at newContext
    exact newContext rfl
  · intro outside
    unfold rdrandSetAesKeys
    rw [if_pos outside]
    exact .refl ssl state
  · intro inRange source
    obtain ⟨unkeyed, counted⟩ :=
      rdrandSetAesKeys_unkeyed rejected inRange
    exact rdrandEncBuffer_unkeyed unkeyed counted source

/-- Two keys are set, and one of nine bytes is rejected. -/
def nineBytes (ssl : OpenSsl) : Outcome :=
  rdrandSetAesKeys ssl 1 9 [List.replicate 9 1] [List.replicate 4 2]
    (twoKeys ssl)

theorem twoKeys_reachable (ssl : OpenSsl) :
    AesReachable ssl (twoKeys ssl) :=
  .keysCall .start
    (.setAesKeys 2 16
      [List.replicate 16 1, List.replicate 16 2]
      [List.replicate 8 3, List.replicate 8 4])

/-- The keys of nine bytes, after two keys were set. -/
theorem rdrandSetAesKeys_leftAlone_iff_nineBytes :
    (LeftAlone .sample (twoKeys .sample) (nineBytes .sample).state ↔
        9 ≤ rdrandMinKeyLength ∨ rdrandMaxKeyLength ≤ 9) ∧
      (¬(9 ≤ rdrandMinKeyLength ∨ rdrandMaxKeyLength ≤ 9) →
        ∀ source,
          (rdrandEncBuffer .sample source
            (nineBytes .sample).state).written = []) :=
  rdrandSetAesKeys_leftAlone_iff (twoKeys_reachable .sample) rfl

/-- A configuration that works does not after keys of nine bytes. -/
theorem nineBytes_not_leftAlone :
    (nineBytes .sample).success = false ∧
      (∀ call, OpenSsl.sample.mallocOk call = true) ∧
      ¬LeftAlone .sample (twoKeys .sample) (nineBytes .sample).state ∧
      (rdrandEncBuffer .sample [7] (twoKeys .sample)).rc = 1 ∧
      (rdrandEncBuffer .sample [7] (nineBytes .sample).state).rc = 0 := by
  refine ⟨rfl, fun _ => rfl, ?_, rfl, rfl⟩
  intro alone
  have sameCfg := alone.cfg
  revert sameCfg
  decide

end RdRand
