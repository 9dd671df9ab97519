import RdRand.AesInvariant

namespace RdRand

/-!
# The AES layer after its keys are set

The keys are set by `rdrandSetAesKeys` or `rdrandSetAesRandomKey`.  Where the
call succeeds, the configuration is valid, and it stays so over any sequence
of calls that encrypt.
-/

namespace KeyArray

theorem uniform_replicate
    (identity : Option Nat)
    (amount length : Nat) :
    ({ identity := identity
       slots :=
        List.replicate amount (List.replicate length 0) } :
      KeyArray).Uniform length := by
  intro string member
  rw [List.eq_of_mem_replicate member, List.length_replicate]

@[simp] theorem copyKeys_slots_length
    (given : List (List Byte))
    (length : Nat)
    (array : KeyArray) :
    (copyKeys given length array).slots.length = array.slots.length := by
  simp [copyKeys]

/-- Copying strings that fit keeps the lengths of the strings. -/
theorem Uniform.copyKeys
    {array : KeyArray}
    {length keyLength : Nat}
    (uniform : array.Uniform keyLength)
    (given : List (List Byte))
    (fits : length ≤ keyLength) :
    (copyKeys given length array).Uniform keyLength := by
  intro string member
  obtain ⟨position, inBounds, rfl⟩ := List.getElem_of_mem member
  rw [copyKeys_slots_length] at inBounds
  have old := uniform _ (List.getElem_mem inBounds)
  have cut :
      ((given.getD position []).take length).length ≤ length :=
    List.length_take_le _ _
  simp only [RdRand.copyKeys, List.getElem_mapIdx]
  rw [overwrite_length (by omega), old]

end KeyArray

section Allocation

variable (ssl : OpenSsl)

/-- An allocation that succeeds gives an array of zeroed strings. -/
theorem allocateArray_some
    {amount keyLength call : Nat}
    (allocated :
      ¬(allocateArray ssl amount keyLength call).identity = none) :
    allocateArray ssl amount keyLength call =
      { identity := some call
        slots :=
          List.replicate amount (List.replicate keyLength 0) } := by
  unfold allocateArray at allocated ⊢
  split
  · rfl
  · next failed =>
      rw [if_neg failed] at allocated
      exact absurd rfl allocated

/-- What a successful `keys_allocate` leaves behind. -/
theorem keysAllocate_spec
    {amount keyLength : Nat}
    {state : AesState}
    (success : (keysAllocate ssl amount keyLength state).success = true) :
    0 < amount ∧
      (keysAllocate ssl amount keyLength state).state =
        { state with
          mallocCalls := state.mallocCalls + 2
          cfg :=
            { state.cfg with
              en := { state.cfg.en with keyed := none, used := 0 }
              keys :=
                { state.cfg.keys with
                  amount := amount
                  keyLength := keyLength
                  keyCurrent := some 0
                  nonceCurrent := some 0
                  keys :=
                    { identity := some state.mallocCalls
                      slots :=
                        List.replicate amount
                          (List.replicate keyLength 0) }
                  nonces :=
                    { identity := some (state.mallocCalls + 1)
                      slots :=
                        List.replicate amount
                          (List.replicate keyLength 0) } } } } := by
  unfold keysAllocate at success ⊢
  split at success
  · cases success
  · next rejected =>
      have accepted : isPowerOfTwo keyLength = true ∧ amount ≠ 0 := by
        simpa using rejected
      rw [if_neg rejected]
      simp only at success ⊢
      split at success
      · cases success
      · next allocated =>
          rw [not_or] at allocated
          rw [allocateArray_some ssl allocated.1,
            allocateArray_some ssl allocated.2]
          exact ⟨Nat.pos_of_ne_zero accepted.2, by simp⟩

/-- `keys_allocate` keys no context, and leaves the counter alone. -/
theorem keysAllocate_unkeyed
    {state : AesState}
    (unkeyed : state.cfg.en.keyed = none)
    (amount keyLength : Nat) :
    (keysAllocate ssl amount keyLength state).state.cfg.en.keyed = none ∧
      (keysAllocate ssl amount keyLength
          state).state.cfg.keys.nextCounter =
        state.cfg.keys.nextCounter := by
  unfold keysAllocate
  split
  · exact ⟨unkeyed, rfl⟩
  · simp only
    split
    · exact ⟨rfl, rfl⟩
    · exact ⟨rfl, rfl⟩

/-- A successful `keys_allocate` leaves valid keys. -/
theorem keysAllocate_valid
    {amount keyLength nextCounter : Nat}
    {keysType : KeysType}
    {before : AesState}
    (success :
      (keysAllocate ssl amount keyLength
        (resetKeys keysType nextCounter before)).success = true)
    (amountBounded : amount < uintModulus)
    (counterBounded : nextCounter ≤ maxCounter)
    (generated : keysType = .keysGenerated → amount = 1) :
    (keysAllocate ssl amount keyLength
      (resetKeys keysType nextCounter before)).state.Valid
        amount keyLength keysType := by
  obtain ⟨positive, allocated⟩ := keysAllocate_spec ssl success
  rw [allocated]
  exact
    { keys :=
        { sameAmount := rfl
          sameLength := rfl
          amountPositive := positive
          amountBounded := amountBounded
          index := positive
          keyCurrent := rfl
          nonceCurrent := rfl
          keySlots := List.length_replicate
          nonceSlots := List.length_replicate
          keyStrings := KeyArray.uniform_replicate _ _ _
          nonceStrings := KeyArray.uniform_replicate _ _ _
          nextCounter := counterBounded
          generated := generated }
      sameType := rfl }

end Allocation

/-- The state right after one of the functions that set keys succeeded. -/
inductive JustSet (ssl : OpenSsl) : Nat → Nat → KeysType → AesState → Prop
    where
  | given
      {amount keyLength : Nat}
      {keys nonces : List (List Byte)}
      {before : AesState}
      (amountBounded : amount < uintModulus)
      (success :
        (rdrandSetAesKeys ssl amount keyLength keys nonces
          before).success = true) :
      JustSet ssl amount keyLength .keysGiven
        (rdrandSetAesKeys ssl amount keyLength keys nonces before).state
  | random
      {before : AesState}
      (success : (rdrandSetAesRandomKey ssl before).success = true) :
      JustSet ssl 1 defaultKeyLen .keysGenerated
        (rdrandSetAesRandomKey ssl before).state

/-- Two given keys of 16 bytes, set in the state before any call. -/
def twoKeys (ssl : OpenSsl) : AesState :=
  (rdrandSetAesKeys ssl 2 16
    [List.replicate 16 1, List.replicate 16 2]
    [List.replicate 8 3, List.replicate 8 4] aesStart).state

theorem twoKeys_justSet :
    JustSet .sample 2 16 .keysGiven (twoKeys .sample) :=
  .given (by decide) rfl

section Initialisation

variable
  {ssl : OpenSsl}
  {amount keyLength : Nat}
  {keysType : KeysType}
  {state : AesState}

/-- Given keys that are set are valid, and the first one is selected. -/
theorem rdrandSetAesKeys_valid
    {keys nonces : List (List Byte)}
    {before : AesState}
    (amountBounded : amount < uintModulus)
    (success :
      (rdrandSetAesKeys ssl amount keyLength keys nonces
        before).success = true) :
    (rdrandSetAesKeys ssl amount keyLength keys nonces
      before).state.Valid amount keyLength .keysGiven ∧
      (rdrandSetAesKeys ssl amount keyLength keys nonces
        before).state.cfg.keys.index = 0 := by
  unfold rdrandSetAesKeys at success ⊢
  split at success
  · cases success
  · next accepted =>
      rw [if_neg accepted]
      simp only at success ⊢
      split at success
      · next allocated =>
          rw [if_pos allocated]
          have valid :=
            keysAllocate_valid ssl allocated amountBounded
              (Nat.le_refl _) (fun generated => nomatch generated)
          have fromReset := (keysAllocate_spec ssl allocated).2
          refine ⟨?_, ?_⟩
          · refine ⟨?_, ?_⟩
            · rw [keyToOpenssl_keys]
              exact
                { valid.keys with
                  keySlots := by
                    rw [KeyArray.copyKeys_slots_length]
                    exact valid.keys.keySlots
                  nonceSlots := by
                    rw [KeyArray.copyKeys_slots_length]
                    exact valid.keys.nonceSlots
                  keyStrings :=
                    valid.keys.keyStrings.copyKeys _ (Nat.le_refl _)
                  nonceStrings :=
                    valid.keys.nonceStrings.copyKeys _
                      (Nat.div_le_self _ _) }
            · rw [keyToOpenssl_keysType]
              exact valid.sameType
          · rw [keyToOpenssl_keys]
            change
              (keysAllocate ssl amount keyLength
                (resetKeys .keysGiven maxCounter
                  before)).state.cfg.keys.index = 0
            rw [fromReset]
            rfl
      · cases success

/-- A random key that is set is valid. -/
theorem rdrandSetAesRandomKey_valid
    {before : AesState}
    (success : (rdrandSetAesRandomKey ssl before).success = true) :
    (rdrandSetAesRandomKey ssl before).state.Valid
      1 defaultKeyLen .keysGenerated := by
  unfold rdrandSetAesRandomKey at success ⊢
  simp only at success ⊢
  split at success
  · next allocated =>
      rw [if_pos allocated]
      have valid :=
        keysAllocate_valid ssl allocated (by decide)
          (Nat.zero_le _) (fun _ => rfl)
      exact keyGenerate_valid ssl valid
  · cases success

/-- Keys that are set are valid, and the first one is selected. -/
theorem JustSet.valid
    (set : JustSet ssl amount keyLength keysType state) :
    state.Valid amount keyLength keysType ∧
      state.cfg.keys.index = 0 := by
  cases set with
  | given amountBounded success =>
      exact rdrandSetAesKeys_valid amountBounded success
  | random success =>
      have valid := rdrandSetAesRandomKey_valid success
      exact ⟨valid, valid.keys.index_zero rfl⟩

end Initialisation

end RdRand
