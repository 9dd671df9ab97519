import RdRand.AesSetUp

namespace RdRand

/-!
# The lengths of keys that can be set

`rdrand_set_aes_keys` tests the length of the keys against an open range, and
`keys_allocate` for a power of two.  Two lengths pass both tests.
-/

/-- The lengths that pass the range and the power of two. -/
theorem keyLength_passes_iff (keyLength : Nat) :
    (¬ (keyLength ≤ rdrandMinKeyLength ∨
          rdrandMaxKeyLength ≤ keyLength) ∧
        isPowerOfTwo keyLength = true) ↔
      keyLength = 8 ∨ keyLength = 16 := by
  constructor
  · rintro ⟨inRange, power⟩
    unfold rdrandMinKeyLength rdrandMaxKeyLength at inRange
    have cases :
        ∀ length : Fin 32,
          4 < length.val →
          isPowerOfTwo length.val = true →
          length.val = 8 ∨ length.val = 16 := by
      decide
    exact cases ⟨keyLength, by omega⟩ (show 4 < keyLength by omega) power
  · rintro (rfl | rfl)
    · exact ⟨by decide, by decide⟩
    · exact ⟨by decide, by decide⟩

section Set

variable
  {ssl : OpenSsl}
  {amount keyLength : Nat}
  {keys nonces : List (List Byte)}
  {state : AesState}

/-- Keys that are set have one of the two lengths, and there are some. -/
theorem rdrandSetAesKeys_length
    (success :
      (rdrandSetAesKeys ssl amount keyLength keys nonces
        state).success = true) :
    amount ≠ 0 ∧ (keyLength = 8 ∨ keyLength = 16) := by
  unfold rdrandSetAesKeys at success
  split at success
  · cases success
  · next inRange =>
      simp only at success
      split at success
      · next allocated =>
          unfold keysAllocate at allocated
          split at allocated
          · cases allocated
          · next rejected =>
              have accepted :
                  isPowerOfTwo keyLength = true ∧ amount ≠ 0 := by
                simpa using rejected
              exact
                ⟨accepted.2,
                  (keyLength_passes_iff keyLength).mp
                    ⟨inRange, accepted.1⟩⟩
      · cases success

/-- With memory at hand, a power of two can be allocated. -/
theorem keysAllocate_success
    (malloc : ∀ call, ssl.mallocOk call = true)
    (power : isPowerOfTwo keyLength = true)
    (some : amount ≠ 0)
    (state : AesState) :
    (keysAllocate ssl amount keyLength state).success = true := by
  simp [keysAllocate, allocateArray, power, some, malloc]

/-- With memory at hand, these are all that is asked for. -/
theorem rdrandSetAesKeys_success_iff
    (malloc : ∀ call, ssl.mallocOk call = true) :
    (rdrandSetAesKeys ssl amount keyLength keys nonces
        state).success = true ↔
      amount ≠ 0 ∧ (keyLength = 8 ∨ keyLength = 16) := by
  constructor
  · exact rdrandSetAesKeys_length
  · rintro ⟨some, length⟩
    obtain ⟨inRange, power⟩ :=
      (keyLength_passes_iff keyLength).mpr length
    have allocated :=
      keysAllocate_success malloc power some
        (resetKeys .keysGiven maxCounter state)
    unfold rdrandSetAesKeys
    rw [if_neg inRange]
    simp only [allocated, if_true]

/-- The strings of keys that are set, and of their nonces. -/
theorem rdrandSetAesKeys_slots
    (success :
      (rdrandSetAesKeys ssl amount keyLength keys nonces
        state).success = true) :
    (rdrandSetAesKeys ssl amount keyLength keys nonces
          state).state.cfg.keys.keys.slots =
        (copyKeys keys keyLength
          { identity := none
            slots :=
              List.replicate amount (List.replicate keyLength 0) }).slots ∧
      (rdrandSetAesKeys ssl amount keyLength keys nonces
          state).state.cfg.keys.nonces.slots =
        (copyKeys nonces (keyLength / 2)
          { identity := none
            slots :=
              List.replicate amount
                (List.replicate keyLength 0) }).slots := by
  unfold rdrandSetAesKeys at success ⊢
  split at success
  · cases success
  · next inRange =>
      rw [if_neg inRange]
      simp only at success ⊢
      split at success
      · next allocated =>
          obtain ⟨_, result⟩ := keysAllocate_spec ssl allocated
          rw [if_pos allocated, result]
          unfold keyToOpenssl
          simp only
          split <;> exact ⟨rfl, rfl⟩
      · cases success

end Set

end RdRand
