import RdRand.AesSteps

namespace RdRand

/-!
# The invariant of the AES configuration

After the keys are set successfully, every step keeps the configuration in
order: the current key is the one the index selects, the stored strings keep
their lengths, and the counter stays within its maximum.
-/

namespace KeyArray

@[simp] theorem write_slots_length
    (array : KeyArray)
    (index : Nat)
    (bytes : List Byte) :
    (array.write index bytes).slots.length = array.slots.length := by
  simp [write]

/-- Writing one slot leaves the others alone. -/
theorem write_slot_other
    (array : KeyArray)
    {index other : Nat}
    (different : other ≠ index)
    (bytes : List Byte) :
    (array.write index bytes).slot other = array.slot other := by
  simp [write, slot, List.getD_eq_getElem?_getD, different.symm]

/-- Writing to the front of a string keeps its length. -/
theorem overwrite_length
    {bytes string : List Byte}
    (fits : bytes.length ≤ string.length) :
    (overwrite bytes string).length = string.length := by
  simp [overwrite, fits]

/-- Every string of the array has the same length. -/
def Uniform (array : KeyArray) (length : Nat) : Prop :=
  ∀ string ∈ array.slots, string.length = length

theorem Uniform.write
    {array : KeyArray}
    {length : Nat}
    (uniform : array.Uniform length)
    (index : Nat)
    {bytes : List Byte}
    (fits : bytes.length ≤ length) :
    (array.write index bytes).Uniform length := by
  intro string member
  obtain ⟨position, inBounds, rfl⟩ := List.getElem_of_mem member
  simp only [KeyArray.write, List.length_modify] at inBounds
  have old := uniform _ (List.getElem_mem inBounds)
  simp only [KeyArray.write, List.getElem_modify]
  split
  · rw [overwrite_length (by omega), old]
  · exact old

/-- Writing a whole string replaces the string of a slot. -/
theorem Uniform.write_slots
    {array : KeyArray}
    {length index : Nat}
    (uniform : array.Uniform length)
    {bytes : List Byte}
    (whole : bytes.length = length) :
    (array.write index bytes).slots = array.slots.set index bytes := by
  apply List.ext_getElem
  · simp [KeyArray.write]
  · intro position inBounds _
    simp only [KeyArray.write, List.length_modify] at inBounds
    have old := uniform _ (List.getElem_mem inBounds)
    simp only [KeyArray.write, List.getElem_modify, List.getElem_set]
    split
    · rw [overwrite, whole, ← old, List.drop_length,
        List.append_nil]
    · rfl

/-- The slot that a whole string is written to holds that string. -/
theorem Uniform.write_slot_self
    {array : KeyArray}
    {length index : Nat}
    (uniform : array.Uniform length)
    (inBounds : index < array.slots.length)
    {bytes : List Byte}
    (whole : bytes.length = length) :
    (array.write index bytes).slot index = bytes := by
  rw [slot, uniform.write_slots whole, List.getD_eq_getElem?_getD,
    List.getElem?_set_self inBounds, Option.getD_some]

/-- Storing a whole string in an array of one string. -/
theorem write_zero
    {array : KeyArray}
    {length : Nat}
    (single : array.slots.length = 1)
    (uniform : array.Uniform length)
    {bytes : List Byte}
    (whole : bytes.length = length) :
    (array.write 0 bytes).slot 0 = bytes ∧
      (array.write 0 bytes = array ↔ bytes = array.slot 0) := by
  obtain ⟨identity, slots⟩ := array
  obtain ⟨string, rfl⟩ := List.length_eq_one_iff.mp single
  have stringLength := uniform string List.mem_cons_self
  have overwritten : overwrite bytes string = bytes := by
    rw [overwrite, whole, ← stringLength, List.drop_length,
      List.append_nil]
  simp [write, slot, overwritten]

end KeyArray

/-- Every stored string has a length, and the current ones are stored. -/
structure Keys.Strings (length : Nat) (keys : Keys) : Prop where
  keyLength : keys.keyLength = length
  amountPositive : 0 < keys.amount
  keySlots : keys.keys.slots.length = keys.amount
  nonceSlots : keys.nonces.slots.length = keys.amount
  keyStrings : keys.keys.Uniform length
  nonceStrings : keys.nonces.Uniform length
  current :
    ∃ index,
      index < keys.amount ∧
        keys.keyCurrent = some index ∧
        keys.nonceCurrent = some index

/-- What every reachable configuration keeps, for the settings it was given. -/
structure Keys.Valid
    (amount keyLength : Nat)
    (keysType : KeysType)
    (keys : Keys) : Prop where
  sameAmount : keys.amount = amount
  sameLength : keys.keyLength = keyLength
  amountPositive : 0 < amount
  amountBounded : amount < uintModulus
  index : keys.index < amount
  keyCurrent : keys.keyCurrent = some keys.index
  nonceCurrent : keys.nonceCurrent = some keys.index
  keySlots : keys.keys.slots.length = amount
  nonceSlots : keys.nonces.slots.length = amount
  keyStrings : keys.keys.Uniform keyLength
  nonceStrings : keys.nonces.Uniform keyLength
  nextCounter : keys.nextCounter ≤ maxCounter
  generated : keysType = .keysGenerated → amount = 1

/-- A valid configuration of generated keys selects its only key. -/
theorem Keys.Valid.index_zero
    {amount keyLength : Nat}
    {keysType : KeysType}
    {keys : Keys}
    (valid : keys.Valid amount keyLength keysType)
    (generated : keysType = .keysGenerated) :
    keys.index = 0 := by
  have bounded := valid.index
  have one := valid.generated generated
  omega

/-- A valid configuration of generated keys uses its only key. -/
theorem Keys.Valid.current_zero
    {amount keyLength : Nat}
    {keysType : KeysType}
    {keys : Keys}
    (valid : keys.Valid amount keyLength keysType)
    (generated : keysType = .keysGenerated) :
    keys.keyCurrent = some 0 ∧ keys.nonceCurrent = some 0 := by
  rw [valid.keyCurrent, valid.nonceCurrent, valid.index_zero generated]
  exact ⟨rfl, rfl⟩

/-- The strings of a valid configuration are as long as its keys. -/
theorem Keys.Valid.strings
    {amount keyLength : Nat}
    {keysType : KeysType}
    {keys : Keys}
    (valid : keys.Valid amount keyLength keysType) :
    keys.Strings keyLength :=
  { keyLength := valid.sameLength
    amountPositive := valid.sameAmount.symm ▸ valid.amountPositive
    keySlots := valid.keySlots.trans valid.sameAmount.symm
    nonceSlots := valid.nonceSlots.trans valid.sameAmount.symm
    keyStrings := valid.keyStrings
    nonceStrings := valid.nonceStrings
    current :=
      ⟨keys.index, valid.sameAmount.symm ▸ valid.index,
        valid.keyCurrent, valid.nonceCurrent⟩ }

/-- A counter within its maximum keeps a configuration valid. -/
theorem Keys.Valid.setCounter
    {amount keyLength : Nat}
    {keysType : KeysType}
    {keys : Keys}
    (valid : keys.Valid amount keyLength keysType)
    {nextCounter : Nat}
    (bounded : nextCounter ≤ maxCounter) :
    ({ keys with nextCounter := nextCounter } : Keys).Valid
      amount keyLength keysType :=
  { valid with nextCounter := bounded }

/-- The value of four bytes is an `unsigned int`. -/
theorem littleEndian_lt (bytes : List Byte) :
    littleEndian bytes < 256 ^ bytes.length := by
  induction bytes with
  | nil =>
      decide
  | cons byte rest inductionHypothesis =>
      have small := byte.isLt
      simp only [littleEndian, List.length_cons, Nat.pow_succ]
      omega

/-- The counter drawn from four bytes is within its maximum. -/
theorem randomCounter_le
    {buf : Nat}
    (bounded : buf < uintModulus) :
    randomCounter buf ≤ maxCounter := by
  unfold randomCounter
  apply Nat.div_le_of_le_mul
  exact Nat.mul_le_mul_right maxCounter (Nat.le_sub_one_of_lt bounded)

/-- The state has valid keys of the given type. -/
structure AesState.Valid
    (amount keyLength : Nat)
    (keysType : KeysType)
    (state : AesState) : Prop where
  keys : state.cfg.keys.Valid amount keyLength keysType
  sameType : state.cfg.keysType = keysType

section Steps

variable
  (ssl : OpenSsl)
  {amount keyLength : Nat}
  {keysType : KeysType}
  {state : AesState}

/-- The string of a slot of a uniform array. -/
theorem KeyArray.Uniform.slot_length
    {array : KeyArray}
    {length index : Nat}
    (uniform : array.Uniform length)
    (inBounds : index < array.slots.length) :
    (array.slot index).length = length := by
  rw [KeyArray.slot, List.getD_eq_getElem?_getD,
    List.getElem?_eq_getElem inBounds]
  exact uniform _ (List.getElem_mem inBounds)

/-- What a cipher call leaves in its destination has the expected length. -/
theorem encryptUpdate_getD_length
    (input : List Byte)
    (state : AesState) :
    ((encryptUpdate ssl input state).output.getD
      (ssl.leftover state.encryptCalls input.length)).length =
        input.length := by
  cases output : (encryptUpdate ssl input state).output with
  | none =>
      exact ssl.leftover_length _ _
  | some produced =>
      exact encryptUpdate_length ssl output

/-- The current strings are as long as the others. -/
theorem Keys.Strings.current_length
    {keys : Keys}
    (strings : keys.Strings keyLength) :
    keys.currentKey.length = keyLength ∧
      keys.currentNonce.length = keyLength := by
  obtain ⟨index, inBounds, key, nonce⟩ := strings.current
  rw [Keys.currentKey, key, Keys.currentNonce, nonce]
  exact
    ⟨strings.keyStrings.slot_length (strings.keySlots.symm ▸ inBounds),
      strings.nonceStrings.slot_length
        (strings.nonceSlots.symm ▸ inBounds)⟩

/--
A key and a nonce are the current ones with the keystream added, one after the
other, where both cipher calls for them succeed.
-/
def AesState.RotatesTo
    (ssl : OpenSsl)
    (state : AesState)
    (key nonce : List Byte) : Prop :=
  ∀ oldKey oldNonce,
    state.cfg.en.keyed = some (oldKey, oldNonce) →
    ssl.encryptOk state.encryptCalls = true →
    ssl.encryptOk (state.encryptCalls + 1) = true →
    key =
        CounterMode.apply (ssl.keystream oldKey oldNonce)
          state.cfg.en.used state.cfg.keys.currentKey ∧
      nonce =
        CounterMode.apply (ssl.keystream oldKey oldNonce)
          (state.cfg.en.used + state.cfg.keys.keyLength)
          state.cfg.keys.currentNonce

/-- The rotation replaces the current strings by others of their length. -/
theorem keysChangeRotation_replaces
    (strings : state.cfg.keys.Strings keyLength) :
    ∃ key nonce,
      key.length = keyLength ∧
        nonce.length = keyLength ∧
        (keysChangeRotation ssl state).success = true ∧
        (keysChangeRotation ssl state).state.log = state.log ∧
        (keysChangeRotation ssl state).state.cfg.keysType =
          state.cfg.keysType ∧
        (keysChangeRotation ssl state).state.cfg.keys =
          replaceCurrent key nonce state.cfg.keys ∧
        state.RotatesTo ssl key nonce := by
  have length := strings.keyLength
  obtain ⟨keyString, nonceString⟩ := strings.current_length
  have someKey : state.cfg.keys.keyCurrent ≠ none := by
    obtain ⟨index, _, keyCurrent, _⟩ := strings.current
    simp [keyCurrent]
  have firstLength :=
    encryptUpdate_getD_length ssl
      (state.cfg.keys.currentKey.take state.cfg.keys.keyLength) state
  have secondLength :=
    encryptUpdate_getD_length ssl
      (state.cfg.keys.currentNonce.take state.cfg.keys.keyLength)
      (encryptUpdate ssl
        (state.cfg.keys.currentKey.take state.cfg.keys.keyLength)
        state).state
  have wholeKey :
      state.cfg.keys.currentKey.take state.cfg.keys.keyLength =
        state.cfg.keys.currentKey :=
    List.take_of_length_le (by rw [keyString, length])
  have wholeNonce :
      state.cfg.keys.currentNonce.take state.cfg.keys.keyLength =
        state.cfg.keys.currentNonce :=
    List.take_of_length_le (by rw [nonceString, length])
  rw [wholeKey, keyString] at firstLength
  rw [wholeKey, wholeNonce, nonceString] at secondLength
  refine
    ⟨(encryptUpdate ssl state.cfg.keys.currentKey state).output.getD
        (ssl.leftover state.encryptCalls keyLength),
      (encryptUpdate ssl state.cfg.keys.currentNonce
          (encryptUpdate ssl state.cfg.keys.currentKey
            state).state).output.getD
        (ssl.leftover
          (encryptUpdate ssl state.cfg.keys.currentKey
            state).state.encryptCalls
          keyLength),
      firstLength, secondLength, ?_, ?_, ?_, ?_, ?_⟩
  · unfold keysChangeRotation
    rw [if_neg someKey]
  · unfold keysChangeRotation
    rw [if_neg someKey]
    simp only [encryptUpdate_log]
  · unfold keysChangeRotation
    rw [if_neg someKey]
    simp only [encryptUpdate_keysType]
  · unfold keysChangeRotation
    rw [if_neg someKey]
    simp only [encryptUpdate_keys, wholeKey, wholeNonce]
    rw [length]
  · intro oldKey oldNonce keyed first second
    have afterKey := encryptUpdate_done ssl keyed first
      state.cfg.keys.currentKey
    have keyedNext :
        (encryptUpdate ssl state.cfg.keys.currentKey
            state).state.cfg.en.keyed =
          some (oldKey, oldNonce) := by
      rw [encryptUpdate_keyed, keyed]
    have secondNext :
        ssl.encryptOk
            (encryptUpdate ssl state.cfg.keys.currentKey
              state).state.encryptCalls =
          true := by
      rw [encryptUpdate_encryptCalls, second]
    rw [encryptUpdate_done ssl keyedNext secondNext, afterKey]
    simp only [Option.getD_some, true_and, CipherContext.advance]
    rw [keyString, length]

/-- The rotation rewrites the current key and nonce in place. -/
theorem keysChangeRotation_spec
    (valid : state.Valid amount keyLength keysType) :
    ∃ key nonce,
      key.length = keyLength ∧
        nonce.length = keyLength ∧
        (keysChangeRotation ssl state).success = true ∧
        (keysChangeRotation ssl state).state.log = state.log ∧
        (keysChangeRotation ssl state).state.cfg.keysType =
          state.cfg.keysType ∧
        (keysChangeRotation ssl state).state.cfg.keys =
          { state.cfg.keys with
            keys :=
              state.cfg.keys.keys.write state.cfg.keys.index key
            nonces :=
              state.cfg.keys.nonces.write state.cfg.keys.index nonce } ∧
        state.RotatesTo ssl key nonce := by
  simpa only [replaceCurrent, valid.keys.keyCurrent,
    valid.keys.nonceCurrent] using
    keysChangeRotation_replaces ssl valid.keys.strings

/-- Selecting the next key keeps a configuration valid. -/
theorem selectNext_valid
    (valid : state.Valid amount keyLength keysType) :
    (state.cfg.keys.index + 1) % uintModulus % state.cfg.keys.amount =
        (state.cfg.keys.index + 1) % amount ∧
      (selectNext state).Valid amount keyLength keysType := by
  have keys := valid.keys
  have index := keys.index
  have bounded := keys.amountBounded
  have next :
      (state.cfg.keys.index + 1) % uintModulus %
          state.cfg.keys.amount =
        (state.cfg.keys.index + 1) % amount := by
    rw [keys.sameAmount,
      Nat.mod_eq_of_lt (show state.cfg.keys.index + 1 < uintModulus by
        omega)]
  refine ⟨next, ?_, valid.sameType⟩
  exact
    { keys with
      index := by
        change
          (state.cfg.keys.index + 1) % uintModulus %
            state.cfg.keys.amount < amount
        rw [next]
        exact Nat.mod_lt _ keys.amountPositive
      keyCurrent := rfl
      nonceCurrent := rfl }

/-- The key change of given keys: the next slot, rewritten in place. -/
theorem keysChange_spec
    (valid : state.Valid amount keyLength keysType) :
    ∃ key nonce,
      key.length = keyLength ∧
        nonce.length = keyLength ∧
        (selectNext state).RotatesTo ssl key nonce ∧
        (keysChange ssl state).state.cfg.keysType =
          state.cfg.keysType ∧
        (keysChange ssl state).state.cfg.keys =
          { state.cfg.keys with
            index := (state.cfg.keys.index + 1) % amount
            keyCurrent := some ((state.cfg.keys.index + 1) % amount)
            nonceCurrent := some ((state.cfg.keys.index + 1) % amount)
            keys :=
              state.cfg.keys.keys.write
                ((state.cfg.keys.index + 1) % amount) key
            nonces :=
              state.cfg.keys.nonces.write
                ((state.cfg.keys.index + 1) % amount) nonce } := by
  obtain ⟨next, selected⟩ := selectNext_valid valid
  obtain ⟨key, nonce, keyLengths, nonceLengths, _, _, sameType, keys,
      rotates⟩ :=
    keysChangeRotation_spec ssl selected
  refine ⟨key, nonce, keyLengths, nonceLengths, rotates, ?_⟩
  rw [keysChange_eq, keyToOpenssl_keys, keyToOpenssl_keysType, sameType,
    keys]
  simp only [selectNext, next]
  simp

/-- Storing a string in the first slot keeps a configuration valid. -/
theorem storeKey_valid
    (valid : state.Valid amount keyLength keysType)
    {bytes : List Byte}
    (fits : bytes.length ≤ keyLength) :
    (storeKey bytes state).Valid amount keyLength keysType where
  keys :=
    { valid.keys with
      keySlots := by
        change (state.cfg.keys.keys.write 0 bytes).slots.length = amount
        rw [KeyArray.write_slots_length]
        exact valid.keys.keySlots
      keyStrings := valid.keys.keyStrings.write 0 fits }
  sameType := valid.sameType

theorem storeNonce_valid
    (valid : state.Valid amount keyLength keysType)
    {bytes : List Byte}
    (fits : bytes.length ≤ keyLength) :
    (storeNonce bytes state).Valid amount keyLength keysType where
  keys :=
    { valid.keys with
      nonceSlots := by
        change
          (state.cfg.keys.nonces.write 0 bytes).slots.length = amount
        rw [KeyArray.write_slots_length]
        exact valid.keys.nonceSlots
      nonceStrings := valid.keys.nonceStrings.write 0 fits }
  sameType := valid.sameType

/-- A call that leaves the configuration alone keeps it valid. -/
theorem AesState.Valid.congr
    {after : AesState}
    (valid : state.Valid amount keyLength keysType)
    (sameKeys : after.cfg.keys = state.cfg.keys)
    (sameType : after.cfg.keysType = state.cfg.keysType) :
    after.Valid amount keyLength keysType where
  keys := by
    rw [sameKeys]
    exact valid.keys
  sameType := by
    rw [sameType]
    exact valid.sameType

/-- Drawing random bytes keeps a configuration valid. -/
theorem randBytes_valid
    (valid : state.Valid amount keyLength keysType)
    (num : Nat) :
    (randBytes ssl num state).state.Valid amount keyLength keysType :=
  valid.congr rfl rfl

/-- The bytes drawn for a key fit its string. -/
theorem randBytes_fits
    (valid : state.Valid amount keyLength keysType)
    {bytes : List Byte}
    (drew :
      (randBytes ssl state.cfg.keys.keyLength state).bytes =
        some bytes) :
    bytes.length ≤ keyLength := by
  have length := ssl.randBytes_length drew
  rw [length, valid.keys.sameLength]

/-- A drawn key replaces the only key as a whole. -/
theorem AesState.Valid.write_key
    (valid : state.Valid amount keyLength keysType)
    (generated : keysType = .keysGenerated)
    {call : Nat}
    {key : List Byte}
    (drawn :
      ssl.randBytes call state.cfg.keys.keyLength = some key) :
    (state.cfg.keys.keys.write 0 key).slot 0 = key ∧
      (state.cfg.keys.keys.write 0 key = state.cfg.keys.keys ↔
        key = state.cfg.keys.keys.slot 0) :=
  KeyArray.write_zero
    (valid.keys.keySlots.trans (valid.keys.generated generated))
    valid.keys.keyStrings
    ((ssl.randBytes_length drawn).trans valid.keys.sameLength)

theorem AesState.Valid.write_nonce
    (valid : state.Valid amount keyLength keysType)
    (generated : keysType = .keysGenerated)
    {call : Nat}
    {nonce : List Byte}
    (drawn :
      ssl.randBytes call state.cfg.keys.keyLength = some nonce) :
    (state.cfg.keys.nonces.write 0 nonce).slot 0 = nonce ∧
      (state.cfg.keys.nonces.write 0 nonce = state.cfg.keys.nonces ↔
        nonce = state.cfg.keys.nonces.slot 0) :=
  KeyArray.write_zero
    (valid.keys.nonceSlots.trans (valid.keys.generated generated))
    valid.keys.nonceStrings
    ((ssl.randBytes_length drawn).trans valid.keys.sameLength)

/-- Generating a key keeps a configuration valid. -/
theorem keyGenerate_valid
    (valid : state.Valid amount keyLength keysType) :
    (keyGenerate ssl state).state.Valid amount keyLength keysType := by
  have first := randBytes_valid ssl valid state.cfg.keys.keyLength
  unfold keyGenerate
  simp only
  split
  · exact first
  · next keyBytes drewKey =>
      have stored :=
        storeKey_valid first (randBytes_fits ssl valid drewKey)
      generalize
        storeKey keyBytes
          (randBytes ssl state.cfg.keys.keyLength state).state =
            keyed at *
      have second := randBytes_valid ssl stored keyed.cfg.keys.keyLength
      split
      · exact second
      · next nonceBytes drewNonce =>
          have both :=
            storeNonce_valid second (randBytes_fits ssl stored drewNonce)
          exact
            both.congr (keyToOpenssl_keys ssl _)
              (keyToOpenssl_keysType ssl _)

/-- Drawing a counter keeps a configuration valid, and the log as it is. -/
theorem keysRandomize_valid
    (valid : state.Valid amount keyLength keysType) :
    (keysRandomize ssl state).state.Valid amount keyLength keysType ∧
      (keysRandomize ssl state).state.log = state.log := by
  unfold keysRandomize
  simp only
  split
  · exact ⟨valid.congr rfl rfl, rfl⟩
  · next bytes drew =>
      have length := ssl.randBytes_length drew
      have bounded : littleEndian bytes < uintModulus := by
        have small := littleEndian_lt bytes
        rw [length] at small
        exact small
      refine ⟨⟨?_, valid.sameType⟩, rfl⟩
      exact valid.keys.setCounter (randomCounter_le bounded)

end Steps

/-- A charge against the counter that needs no key change does not wrap. -/
theorem charge_eq
    {nextCounter num : Nat}
    (counterBounded : nextCounter ≤ maxCounter)
    (covered : num ≤ nextCounter) :
    (nextCounter + (uintModulus - num)) % uintModulus =
      nextCounter - num := by
  have uintLarge : maxCounter < uintModulus := by
    decide
  rw [show nextCounter + (uintModulus - num) =
      nextCounter - num + uintModulus by omega,
    Nat.add_mod_right, Nat.mod_eq_of_lt (by omega)]

section Run

variable
  {ssl : OpenSsl}
  {amount keyLength : Nat}
  {keysType : KeysType}
  {state : AesState}

/-- Changing to the next given key keeps the configuration valid. -/
theorem keysChange_valid
    (ssl : OpenSsl)
    (valid : state.Valid amount keyLength keysType) :
    (setCounter maxCounter (keysChange ssl state).state).Valid
      amount keyLength keysType := by
  obtain ⟨key, nonce, keyLengths, nonceLengths, _, sameType, keys⟩ :=
    keysChange_spec ssl valid
  have changed :
      (keysChange ssl state).state.cfg.keys.Valid
        amount keyLength keysType := by
    rw [keys]
    exact
      { valid.keys with
        index := Nat.mod_lt _ valid.keys.amountPositive
        keyCurrent := rfl
        nonceCurrent := rfl
        keySlots := by
          rw [KeyArray.write_slots_length]
          exact valid.keys.keySlots
        nonceSlots := by
          rw [KeyArray.write_slots_length]
          exact valid.keys.nonceSlots
        keyStrings :=
          valid.keys.keyStrings.write _ (Nat.le_of_eq keyLengths)
        nonceStrings :=
          valid.keys.nonceStrings.write _ (Nat.le_of_eq nonceLengths) }
  exact
    ⟨changed.setCounter (Nat.le_refl _), sameType.trans valid.sameType⟩

/-- A call of `counter` keeps the configuration valid. -/
theorem counter_valid
    (ssl : OpenSsl)
    (valid : state.Valid amount keyLength keysType)
    (num : Nat) :
    (counter ssl num state).state.Valid amount keyLength keysType := by
  unfold counter
  split
  · split
    · exact keysChange_valid ssl valid
    · exact
        (keysRandomize_valid ssl (keyGenerate_valid ssl valid)).1
  · next notDue =>
      have covered : num ≤ state.cfg.keys.nextCounter := by
        unfold KeyChangeDue at notDue
        omega
      have counterBounded := valid.keys.nextCounter
      rw [charge_eq counterBounded covered]
      refine ⟨?_, valid.sameType⟩
      exact valid.keys.setCounter (by omega)

/-- An encryption of payload keeps the configuration valid. -/
theorem encryptPayload_valid
    (ssl : OpenSsl)
    (valid : state.Valid amount keyLength keysType)
    (input : List Byte) :
    (encryptPayload ssl input state).state.Valid
      amount keyLength keysType :=
  valid.congr (encryptPayload_keys ssl input state)
    (encryptPayload_keysType ssl input state)

/-- A step keeps the configuration valid. -/
theorem CountingCall.perform_valid
    (ssl : OpenSsl)
    (valid : state.Valid amount keyLength keysType)
    (call : CountingCall) :
    (call.perform ssl state).Valid amount keyLength keysType := by
  cases call with
  | count num =>
      exact counter_valid ssl valid num
  | encrypt input =>
      exact encryptPayload_valid ssl valid input

/-- A sequence of steps keeps the configuration valid. -/
theorem runCounting_valid
    (ssl : OpenSsl)
    (valid : state.Valid amount keyLength keysType)
    (calls : List CountingCall) :
    (runCounting ssl calls state).Valid amount keyLength keysType := by
  induction calls generalizing state with
  | nil =>
      exact valid
  | cons call rest inductionHypothesis =>
      exact inductionHypothesis (call.perform_valid ssl valid)

/-- Every reachable state is valid. -/
theorem AesReaches.valid
    {later : AesState}
    (valid : state.Valid amount keyLength keysType)
    (reaches : AesReaches ssl state later) :
    later.Valid amount keyLength keysType := by
  induction reaches with
  | start =>
      exact valid
  | counter _ _ inductionHypothesis =>
      exact counter_valid ssl inductionHypothesis _
  | payload _ input inductionHypothesis =>
      exact encryptPayload_valid ssl inductionHypothesis input

end Run

end RdRand
