import RdRand.BufferEncryption
import RdRand.KeyLengths
import RdRand.KeyRing

namespace RdRand

/-!
# Given keys as a ring

With given keys and a cipher that never fails, the AES layer is a ring of
keys: `counter` charges it, a key change turns it, and an encryption of payload
masks a message with it.  What the layer does beyond that, such as the numbers
of its calls and the identities of its arrays, decides nothing.
-/

open KeyRing

/-- The cipher of OpenSSL, and the allowance of a given key. -/
def OpenSsl.rules (ssl : OpenSsl) : Rules 8 where
  stream := ssl.keystream
  budget := maxCounter

/-- A configuration of given keys that a ring describes. -/
structure Follows
    (keyLength : Nat)
    (ring : Ring 8)
    (state : AesState) : Prop where
  valid : state.Valid ring.keys.length keyLength .keysGiven
  keys : state.cfg.keys.keys.slots = ring.keys
  nonces : state.cfg.keys.nonces.slots = ring.nonces
  index : state.cfg.keys.index = ring.index
  nextCounter : state.cfg.keys.nextCounter = ring.allowance
  keyed : state.cfg.en.keyed = some (ring.key, ring.nonce)
  used : state.cfg.en.used = ring.used

section Updates

variable
  {ssl : OpenSsl}
  {keyLength : Nat}
  {ring : Ring 8}
  {state : AesState}

/-- The outcome of a cipher call on a context that a ring describes. -/
theorem encryptUpdate_masks
    (cipher : ssl.CipherSucceeds)
    (keyed : state.cfg.en.keyed = some (ring.key, ring.nonce))
    (used : state.cfg.en.used = ring.used)
    (input : List Byte) :
    encryptUpdate ssl input state =
      { output := some (ring.mask ssl.rules input)
        state :=
          { state with
            encryptCalls := state.encryptCalls + 1
            cfg :=
              { state.cfg with
                en := state.cfg.en.advance input.length } } } := by
  unfold encryptUpdate CipherContext.output
  simp only [cipher.encrypt, if_true, keyed, Option.map_some, used]
  rfl

/-- An encryption of payload masks it, and advances the ring. -/
theorem encryptPayload_follows
    (cipher : ssl.CipherSucceeds)
    (follows : Follows keyLength ring state)
    (input : List Byte) :
    (encryptPayload ssl input state).output =
        some (ring.mask ssl.rules input) ∧
      Follows keyLength (ring.advance input.length)
        (encryptPayload ssl input state).state := by
  have update :=
    encryptUpdate_masks cipher follows.keyed follows.used input
  have output :
      (encryptPayload ssl input state).output =
        some (ring.mask ssl.rules input) := by
    unfold encryptPayload
    rw [update]
  refine ⟨output, ?_⟩
  have cfg := encryptPayload_cfg ssl output
  exact
    { valid := encryptPayload_valid ssl follows.valid input
      keys := by
        rw [cfg]
        exact follows.keys
      nonces := by
        rw [cfg]
        exact follows.nonces
      index := by
        rw [cfg]
        exact follows.index
      nextCounter := by
        rw [cfg]
        exact follows.nextCounter
      keyed := by
        rw [cfg]
        exact follows.keyed
      used := by
        rw [cfg]
        exact congrArg (· + input.length) follows.used }

end Updates

section Turning

variable
  {ssl : OpenSsl}
  {keyLength : Nat}
  {ring : Ring 8}
  {state : AesState}

/-- The strings a key change selects are those the ring turns to. -/
theorem selectNext_current
    (follows : Follows keyLength ring state) :
    (selectNext state).cfg.keys.index = ring.next ∧
      (selectNext state).cfg.keys.currentKey.take keyLength =
        ring.keys.getD ring.next [] ∧
      (selectNext state).cfg.keys.currentNonce.take keyLength =
        ring.nonces.getD ring.next [] := by
  obtain ⟨next, selected⟩ := selectNext_valid follows.valid
  have index : (selectNext state).cfg.keys.index = ring.next := by
    rw [Ring.next, ← follows.index]
    exact next
  obtain ⟨keyString, nonceString⟩ :=
    selected.keys.strings.current_length
  refine ⟨index, ?_, ?_⟩
  · rw [List.take_of_length_le (Nat.le_of_eq keyString),
      Keys.currentKey, selected.keys.keyCurrent, index]
    change state.cfg.keys.keys.slots.getD ring.next [] = _
    rw [follows.keys]
  · rw [List.take_of_length_le (Nat.le_of_eq nonceString),
      Keys.currentNonce, selected.keys.nonceCurrent, index]
    change state.cfg.keys.nonces.slots.getD ring.next [] = _
    rw [follows.nonces]

/-- The rotation stores the masked key and nonce. -/
theorem keysChangeRotation_stores
    (cipher : ssl.CipherSucceeds)
    (follows : Follows keyLength ring state) :
    (keysChangeRotation ssl (selectNext state)).state.cfg.keys =
      replaceCurrent (ring.nextKey ssl.rules) (ring.nextNonce ssl.rules)
        (selectNext state).cfg.keys := by
  have selected := (selectNext_valid follows.valid).2
  have someKey : (selectNext state).cfg.keys.keyCurrent ≠ none := by
    rw [selected.keys.keyCurrent]
    exact Option.some_ne_none _
  obtain ⟨_, key, nonce⟩ := selectNext_current follows
  have keyed :
      (selectNext state).cfg.en.keyed = some (ring.key, ring.nonce) :=
    follows.keyed
  have used : (selectNext state).cfg.en.used = ring.used :=
    follows.used
  have first := encryptUpdate_masks cipher keyed used
    (ring.keys.getD ring.next [])
  let advanced := ring.advance (ring.nextKey ssl.rules).length
  have keyedStill :
      (encryptUpdate ssl (ring.keys.getD ring.next [])
          (selectNext state)).state.cfg.en.keyed =
        some (advanced.key, advanced.nonce) :=
    (encryptUpdate_keyed ssl _ _).trans keyed
  have usedLater :
      (encryptUpdate ssl (ring.keys.getD ring.next [])
          (selectNext state)).state.cfg.en.used = advanced.used := by
    rw [first]
    simp only [advanced, Ring.advance, Ring.nextKey, Ring.mask_length]
    exact congrArg (· + _) used
  have second :=
    encryptUpdate_masks cipher keyedStill usedLater
      (ring.nonces.getD ring.next [])
  unfold keysChangeRotation
  rw [if_neg someKey, selected.keys.sameLength]
  simp only [key, nonce, encryptUpdate_keys]
  rw [second, first]
  rfl

/-- The position of the next key is one of the ring. -/
theorem Follows.next_lt
    (follows : Follows keyLength ring state) :
    ring.next < ring.keys.length :=
  Nat.mod_lt _ follows.valid.keys.amountPositive

/-- The masked strings are as long as those they replace. -/
theorem Follows.next_length
    (follows : Follows keyLength ring state)
    (rules : Rules 8) :
    (ring.nextKey rules).length = keyLength ∧
      (ring.nextNonce rules).length = keyLength := by
  have strings := follows.valid.keys
  have next := follows.next_lt
  have key :=
    strings.keyStrings.slot_length
      (strings.keySlots.symm ▸ next)
  have nonce :=
    strings.nonceStrings.slot_length
      (strings.nonceSlots.symm ▸ next)
  rw [KeyArray.slot, follows.keys] at key
  rw [KeyArray.slot, follows.nonces] at nonce
  exact
    ⟨(Ring.mask_length _ _ _).trans key,
      (Ring.mask_length _ _ _).trans nonce⟩

/-- The strings that replace the current ones are the current ones. -/
theorem Keys.Valid.replaced_current
    {amount : Nat}
    {keysType : KeysType}
    {keys : Keys}
    (valid : keys.Valid amount keyLength keysType)
    {key nonce : List Byte}
    (keyWhole : key.length = keyLength)
    (nonceWhole : nonce.length = keyLength) :
    (replaceCurrent key nonce keys).keys.slots =
        keys.keys.slots.set keys.index key ∧
      (replaceCurrent key nonce keys).nonces.slots =
        keys.nonces.slots.set keys.index nonce ∧
      (replaceCurrent key nonce keys).currentKey = key ∧
      (replaceCurrent key nonce keys).currentNonce = nonce := by
  have keySlot : keys.index < keys.keys.slots.length := by
    rw [valid.keySlots]
    exact valid.index
  have nonceSlot : keys.index < keys.nonces.slots.length := by
    rw [valid.nonceSlots]
    exact valid.index
  simp only [replaceCurrent, valid.keyCurrent, valid.nonceCurrent,
    Keys.currentKey, Keys.currentNonce, KeyArray.slot,
    valid.keyStrings.write_slots keyWhole,
    valid.nonceStrings.write_slots nonceWhole]
  simp [List.getD_eq_getElem?_getD, keySlot, nonceSlot]

/-- A key change turns the ring. -/
theorem keysChange_turns
    (cipher : ssl.CipherSucceeds)
    (follows : Follows keyLength ring state) :
    Follows keyLength (ring.turn ssl.rules)
      (setCounter maxCounter (keysChange ssl state).state) := by
  have selected := (selectNext_valid follows.valid).2
  have index := (selectNext_current follows).1
  have rotated := keysChangeRotation_stores cipher follows
  obtain ⟨keyWhole, nonceWhole⟩ := follows.next_length ssl.rules
  obtain ⟨keySlots, nonceSlots, key, nonce⟩ :=
    selected.keys.replaced_current keyWhole nonceWhole
  rw [← rotated] at keySlots nonceSlots key nonce
  have sameLength :
      (ring.turn ssl.rules).keys.length = ring.keys.length :=
    List.length_set
  have keyed := cipher.init
    (keysChangeRotation ssl (selectNext state)).state.initCalls
  have bound :
      (keyToOpenssl ssl
          (keysChangeRotation ssl (selectNext state)).state).state.cfg.en =
        (keysChangeRotation ssl (selectNext state)).state.cfg.en.key
          (ring.nextKey ssl.rules) (ring.nextNonce ssl.rules) := by
    unfold keyToOpenssl
    simp only [keyed, if_true, key, nonce]
  exact
    { valid := by
        rw [sameLength]
        exact keysChange_valid ssl follows.valid
      keys := by
        rw [keysChange_eq]
        simp only [setCounter, keyToOpenssl_keys]
        rw [keySlots, index]
        exact congrArg (List.set · _ _) follows.keys
      nonces := by
        rw [keysChange_eq]
        simp only [setCounter, keyToOpenssl_keys]
        rw [nonceSlots, index]
        exact congrArg (List.set · _ _) follows.nonces
      index := by
        rw [keysChange_eq]
        simp only [setCounter, keyToOpenssl_keys]
        rw [rotated]
        exact index
      nextCounter := rfl
      keyed := by
        rw [keysChange_eq]
        simp only [setCounter, bound]
        rfl
      used := by
        rw [keysChange_eq]
        simp only [setCounter, bound]
        rfl }

/-- `counter` charges the ring, and reports whether it has turned. -/
theorem counter_charge_follows
    (cipher : ssl.CipherSucceeds)
    (follows : Follows keyLength ring state)
    (num : Nat) :
    ((counter ssl num state).success = true ↔ ring.Spent num) ∧
      Follows keyLength (ring.charge ssl.rules num)
        (counter ssl num state).state := by
  have due : KeyChangeDue num state ↔ ring.Spent num := by
    unfold KeyChangeDue Ring.Spent
    rw [follows.nextCounter]
  have given := follows.valid.sameType
  unfold counter Ring.charge
  by_cases spent : ring.Spent num
  · rw [if_pos (due.mpr spent), if_pos spent, given]
    simp only [keysChange_eq, spent]
    refine ⟨trivial, ?_⟩
    have turned := keysChange_turns cipher follows
    rwa [keysChange_eq] at turned
  · rw [if_neg (mt due.mp spent), if_neg spent]
    refine ⟨iff_of_false Bool.false_ne_true spent, ?_⟩
    have covered : num ≤ state.cfg.keys.nextCounter := by
      rw [follows.nextCounter]
      exact Nat.not_lt.mp (not_or.mp spent).2
    have bounded := follows.valid.keys.nextCounter
    rw [charge_eq bounded covered]
    exact
      { follows with
        valid :=
          { follows.valid with
            keys :=
              follows.valid.keys.setCounter
                (Nat.le_trans (Nat.sub_le _ _) bounded) }
        nextCounter :=
          congrArg (· - num) follows.nextCounter }

end Turning

/-- Strings cut to a length, over zeroed strings. -/
def storedStrings
    (amount keyLength length : Nat)
    (given : List (List Byte)) : List (List Byte) :=
  (copyKeys given length
    { identity := none
      slots := List.replicate amount (List.replicate keyLength 0) }).slots

/-- The ring of some given keys and nonces. -/
def givenRing
    (amount keyLength : Nat)
    (keys nonces : List (List Byte)) : Ring 8 where
  keys := storedStrings amount keyLength keyLength keys
  nonces := storedStrings amount keyLength (keyLength / 2) nonces
  index := 0
  allowance := maxCounter
  key := (storedStrings amount keyLength keyLength keys).getD 0 []
  nonce := (storedStrings amount keyLength (keyLength / 2) nonces).getD 0 []
  used := 0

/-- Keys that are set make up a ring. -/
theorem rdrandSetAesKeys_follows
    {ssl : OpenSsl}
    (init : ∀ call, ssl.initOk call = true)
    {amount keyLength : Nat}
    {keys nonces : List (List Byte)}
    {before : AesState}
    (amountBounded : amount < uintModulus)
    (success :
      (rdrandSetAesKeys ssl amount keyLength keys nonces
        before).success = true) :
    Follows keyLength (givenRing amount keyLength keys nonces)
      (rdrandSetAesKeys ssl amount keyLength keys nonces before).state := by
  obtain ⟨valid, index⟩ := rdrandSetAesKeys_valid amountBounded success
  obtain ⟨keySlots, nonceSlots⟩ := rdrandSetAesKeys_slots success
  have amountStored :
      (givenRing amount keyLength keys nonces).keys.length = amount := by
    simp [givenRing, storedStrings]
  have current :
      (rdrandSetAesKeys ssl amount keyLength keys nonces
          before).state.cfg.keys.nextCounter = maxCounter ∧
        (rdrandSetAesKeys ssl amount keyLength keys nonces
            before).state.cfg.en.keyed =
          some
            ((rdrandSetAesKeys ssl amount keyLength keys nonces
                before).state.cfg.keys.keys.slot 0,
              (rdrandSetAesKeys ssl amount keyLength keys nonces
                before).state.cfg.keys.nonces.slot 0) ∧
        (rdrandSetAesKeys ssl amount keyLength keys nonces
            before).state.cfg.en.used = 0 := by
    unfold rdrandSetAesKeys at success ⊢
    split at success
    · cases success
    · next inRange =>
        rw [if_neg inRange]
        simp only at success ⊢
        split at success
        · next allocated =>
            obtain ⟨_, result⟩ := keysAllocate_spec ssl allocated
            rw [if_pos allocated, result]
            unfold keyToOpenssl
            simp only [init, if_true]
            exact ⟨rfl, rfl, rfl⟩
        · cases success
  obtain ⟨nextCounter, keyed, used⟩ := current
  exact
    { valid := by
        rw [amountStored]
        exact valid
      keys := keySlots
      nonces := nonceSlots
      index := index
      nextCounter := nextCounter
      keyed := by
        rw [keyed, KeyArray.slot, KeyArray.slot, keySlots, nonceSlots]
        rfl
      used := used }

end RdRand
