import RdRand.AesSetUp

namespace RdRand

/-!
# Setting and discarding keys

`rdrandCleanAes` discards what the two functions that set keys have made: the
arrays of keys and nonces, and the cipher context.  The pointers that these
functions overwrite are the handles of a configuration.  All other functions
of the library leave the handles alone.
-/

/--
`keys_free`, which frees the strings of the arrays and the arrays, and cleans
the cipher context up.
-/
def keysFree (state : AesState) : AesState :=
  if state.cfg.keys.keys.identity = none then
    state
  else
    { state with
      cfg :=
        { state.cfg with
          keys :=
            { state.cfg.keys with
              index := 0
              keyCurrent := none
              nonceCurrent := none
              keys := .null
              nonces := .null }
          en := { state.cfg.en with keyed := none, used := 0 } } }

/--
`rdrand_clean_aes`.  The context is freed, and the configuration goes on
pointing to it.
-/
def rdrandCleanAes (state : AesState) : AesState :=
  let freed := keysFree state
  { freed with
    cfg :=
      { freed.cfg with
        keysType := .keysGenerated
        keys :=
          { freed.cfg.keys with
            amount := 0
            keyLength := 0
            nextCounter := 0 }
        en := { freed.cfg.en with keyed := none, used := 0 } } }

/-- A call that sets keys or discards them. -/
inductive KeysCall where
  | setAesKeys (amount keyLength : Nat) (keys nonces : List (List Byte))
  | setAesRandomKey
  | cleanAes
  deriving Repr, DecidableEq

/-- The state after a call. -/
def KeysCall.perform (ssl : OpenSsl) (state : AesState) : KeysCall → AesState
  | .setAesKeys amount keyLength keys nonces =>
      (rdrandSetAesKeys ssl amount keyLength keys nonces state).state
  | .setAesRandomKey => (rdrandSetAesRandomKey ssl state).state
  | .cleanAes => rdrandCleanAes state

/-- The pointers of a configuration, and how many there were so far. -/
structure Handles where
  context : Option Nat
  keys : Option Nat
  nonces : Option Nat
  contexts : Nat
  mallocCalls : Nat
  deriving Repr, DecidableEq

/-- The handles of a state. -/
def AesState.handles (state : AesState) : Handles where
  context := state.cfg.en.identity
  keys := state.cfg.keys.keys.identity
  nonces := state.cfg.keys.nonces.identity
  contexts := state.contexts
  mallocCalls := state.mallocCalls

section Frames

variable (ssl : OpenSsl)

@[simp] theorem encryptUpdate_handles
    (input : List Byte)
    (state : AesState) :
    (encryptUpdate ssl input state).state.handles = state.handles := by
  unfold encryptUpdate
  split
  · split <;> rfl
  · rfl

@[simp] theorem keyToOpenssl_handles (state : AesState) :
    (keyToOpenssl ssl state).state.handles = state.handles := by
  unfold keyToOpenssl
  simp only
  split <;> rfl

@[simp] theorem keyGenerate_handles (state : AesState) :
    (keyGenerate ssl state).state.handles = state.handles := by
  unfold keyGenerate
  simp only
  split
  · rfl
  · split
    · rfl
    · rw [keyToOpenssl_handles]
      rfl

@[simp] theorem keysRandomize_handles (state : AesState) :
    (keysRandomize ssl state).state.handles = state.handles := by
  unfold keysRandomize
  simp only
  split <;> rfl

/-- Replacing strings keeps the arrays they are in. -/
theorem replaceCurrent_identity
    (key nonce : List Byte)
    (keys : Keys) :
    (replaceCurrent key nonce keys).keys.identity = keys.keys.identity ∧
      (replaceCurrent key nonce keys).nonces.identity =
        keys.nonces.identity := by
  unfold replaceCurrent
  constructor
  · simp only
    split <;> rfl
  · simp only
    split <;> rfl

@[simp] theorem keysChangeRotation_handles (state : AesState) :
    (keysChangeRotation ssl state).state.handles = state.handles := by
  unfold keysChangeRotation
  split
  · rfl
  · have first := encryptUpdate_handles ssl
    simp only [AesState.handles, Handles.mk.injEq] at first ⊢
    simp only [replaceCurrent_identity, encryptUpdate_keys, first,
      and_self]

@[simp] theorem keysChange_handles (state : AesState) :
    (keysChange ssl state).state.handles = state.handles := by
  rw [keysChange_eq, keyToOpenssl_handles, keysChangeRotation_handles]
  rfl

/-- `counter` keeps the pointers. -/
@[simp] theorem counter_handles (num : Nat) (state : AesState) :
    (counter ssl num state).state.handles = state.handles := by
  unfold counter
  split
  · split
    · exact keysChange_handles ssl state
    · rw [keysRandomize_handles, keyGenerate_handles]
  · rfl

@[simp] theorem encryptPayload_handles
    (input : List Byte)
    (state : AesState) :
    (encryptPayload ssl input state).state.handles = state.handles := by
  unfold encryptPayload
  simp only
  split
  · exact encryptUpdate_handles ssl input state
  · exact encryptUpdate_handles ssl input state

end Frames

/-- Encrypting keeps the pointers. -/
theorem AesReaches.handles
    {ssl : OpenSsl}
    {start later : AesState}
    (reaches : AesReaches ssl start later) :
    later.handles = start.handles := by
  induction reaches with
  | start =>
      rfl
  | counter _ _ inductionHypothesis =>
      exact (counter_handles ssl _ _).trans inductionHypothesis
  | payload _ input inductionHypothesis =>
      exact (encryptPayload_handles ssl input _).trans inductionHypothesis

/-- The call makes a new cipher context. -/
def KeysCall.Creates : KeysCall → Prop
  | .setAesKeys _ keyLength _ _ =>
      rdrandMinKeyLength < keyLength ∧ keyLength < rdrandMaxKeyLength
  | .setAesRandomKey => True
  | .cleanAes => False

/-- What a call leaves of the handles if it makes a new context. -/
structure Handles.Renewed (before after : Handles) : Prop where
  context : after.context = some before.contexts
  contexts : after.contexts = before.contexts + 1
  arrays :
    (after.keys = before.keys ∧
        after.nonces = before.nonces ∧
        after.mallocCalls = before.mallocCalls) ∨
      (after.mallocCalls = before.mallocCalls + 2 ∧
        (∀ array ∈ after.keys, array = before.mallocCalls) ∧
        ∀ array ∈ after.nonces, array = before.mallocCalls + 1)

/-- A new context is one of those made so far. -/
theorem Handles.Renewed.context_lt
    {before after : Handles}
    (renewed : before.Renewed after) :
    ∀ context ∈ after.context, context < after.contexts := by
  rw [renewed.context, renewed.contexts]
  rintro _ ⟨⟩
  exact Nat.lt_succ_self _

section Creating

variable (ssl : OpenSsl)

theorem allocateArray_identity
    {amount keyLength call array : Nat}
    (allocated :
      array ∈ (allocateArray ssl amount keyLength call).identity) :
    array = call := by
  unfold allocateArray at allocated
  split at allocated
  · exact (Option.some.inj allocated).symm
  · cases allocated

/-- Whether `keys_allocate` succeeds or not, the context is a new one. -/
theorem keysAllocate_renewed
    (amount keyLength nextCounter : Nat)
    (keysType : KeysType)
    (state : AesState) :
    state.handles.Renewed
      (keysAllocate ssl amount keyLength
        (resetKeys keysType nextCounter state)).state.handles := by
  unfold keysAllocate
  split
  · exact
      { context := rfl
        contexts := rfl
        arrays := .inl ⟨rfl, rfl, rfl⟩ }
  · have arrays :
        (∀ array ∈ (allocateArray ssl amount keyLength
            state.mallocCalls).identity, array = state.mallocCalls) ∧
          ∀ array ∈ (allocateArray ssl amount keyLength
            (state.mallocCalls + 1)).identity,
            array = state.mallocCalls + 1 :=
      ⟨fun _ => allocateArray_identity ssl,
        fun _ => allocateArray_identity ssl⟩
    simp only
    split
    · exact
        { context := rfl
          contexts := rfl
          arrays := .inr ⟨rfl, arrays⟩ }
    · exact
        { context := rfl
          contexts := rfl
          arrays := .inr ⟨rfl, arrays⟩ }

/-- A call that makes a context renews the handles. -/
theorem KeysCall.Creates.renewed
    {call : KeysCall}
    (creates : call.Creates)
    (state : AesState) :
    state.handles.Renewed (call.perform ssl state).handles := by
  cases call with
  | setAesKeys amount keyLength keys nonces =>
      have inRange :
          ¬(keyLength ≤ rdrandMinKeyLength ∨
            rdrandMaxKeyLength ≤ keyLength) :=
        fun outside => outside.elim
          (Nat.not_le.mpr creates.1) (Nat.not_le.mpr creates.2)
      have renewed :=
        keysAllocate_renewed ssl amount keyLength maxCounter .keysGiven
          state
      unfold KeysCall.perform rdrandSetAesKeys
      simp only
      rw [if_neg inRange]
      split
      · simp only [keyToOpenssl_handles]
        exact renewed
      · exact renewed
  | setAesRandomKey =>
      have renewed :=
        keysAllocate_renewed ssl 1 defaultKeyLen 0 .keysGenerated state
      unfold KeysCall.perform rdrandSetAesRandomKey
      simp only
      split
      · rw [keyGenerate_handles]
        exact renewed
      · exact renewed
  | cleanAes =>
      exact creates.elim

/-- A call that sets keys and makes no context changes nothing. -/
theorem KeysCall.perform_of_not_creates
    {call : KeysCall}
    (noContext : ¬call.Creates)
    (sets : call ≠ .cleanAes)
    (state : AesState) :
    call.perform ssl state = state := by
  cases call with
  | setAesKeys amount keyLength keys nonces =>
      have outside :
          keyLength ≤ rdrandMinKeyLength ∨
            rdrandMaxKeyLength ≤ keyLength := by
        unfold KeysCall.Creates at noContext
        omega
      unfold KeysCall.perform rdrandSetAesKeys
      simp only
      rw [if_pos outside]
  | setAesRandomKey =>
      exact absurd trivial noContext
  | cleanAes =>
      exact absurd rfl sets

end Creating

/-- The handles after `rdrand_clean_aes`. -/
def Handles.cleaned (handles : Handles) : Handles :=
  if handles.keys = none then
    handles
  else
    { handles with keys := none, nonces := none }

theorem rdrandCleanAes_handles (state : AesState) :
    (rdrandCleanAes state).handles = state.handles.cleaned := by
  by_cases noKeys : state.cfg.keys.keys.identity = none
  · simp [rdrandCleanAes, keysFree, Handles.cleaned, AesState.handles,
      noKeys]
  · simp [rdrandCleanAes, keysFree, Handles.cleaned, AesState.handles,
      noKeys, KeyArray.null]

section Cleaned

variable (handles : Handles)

@[simp] theorem Handles.cleaned_context :
    handles.cleaned.context = handles.context := by
  unfold Handles.cleaned
  split <;> rfl

@[simp] theorem Handles.cleaned_contexts :
    handles.cleaned.contexts = handles.contexts := by
  unfold Handles.cleaned
  split <;> rfl

@[simp] theorem Handles.cleaned_mallocCalls :
    handles.cleaned.mallocCalls = handles.mallocCalls := by
  unfold Handles.cleaned
  split <;> rfl

@[simp] theorem Handles.cleaned_keys : handles.cleaned.keys = none := by
  unfold Handles.cleaned
  split
  · next noKeys => exact noKeys
  · rfl

/-- Nonces are left over where there were no keys. -/
theorem Handles.mem_cleaned_nonces {array : Nat} :
    array ∈ handles.cleaned.nonces ↔
      handles.keys = none ∧ array ∈ handles.nonces := by
  unfold Handles.cleaned
  split
  · next noKeys => simp [noKeys]
  · next someKeys => simp [someKeys]

end Cleaned

end RdRand
