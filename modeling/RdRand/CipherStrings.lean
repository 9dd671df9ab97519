import RdRand.KeyLengths
import RdRand.KeyLines

namespace RdRand

/-!
# The strings the cipher reads

`key_to_openssl` hands the current key and nonce to a cipher that reads 16
bytes of each, whatever the length of the keys is.  The functions here list
the strings that are handed over by each function that calls it, also where
the call fails.
-/

open ControlLoop

/-- The length of a key and of an initial counter of `EVP_aes_128_ctr`. -/
def evpAes128CtrLength : Nat := 16

/-- The two strings of one call of `EVP_CipherInit_ex`. -/
structure Handed where
  key : List Byte
  nonce : List Byte
  deriving Repr, DecidableEq

/-- Both strings are as long as the cipher reads. -/
structure Handed.Suffices (handed : Handed) : Prop where
  key : evpAes128CtrLength ≤ handed.key.length
  nonce : evpAes128CtrLength ≤ handed.nonce.length

/-- What `key_to_openssl` hands over. -/
def keyToOpensslHands (state : AesState) : Handed where
  key := state.cfg.keys.currentKey
  nonce := state.cfg.keys.currentNonce

section Functions

variable
  (ssl : OpenSsl)
  (heap : Nat → List Byte)

/-- What `rdrand_set_aes_keys` hands over, after it copied the strings. -/
def rdrandSetAesKeysHands
    (amount keyLength : Nat)
    (keys nonces : List (List Byte))
    (state : AesState) : List Handed :=
  if keyLength ≤ rdrandMinKeyLength ∨ rdrandMaxKeyLength ≤ keyLength then
    []
  else
    let allocated :=
      keysAllocate ssl amount keyLength
        (resetKeys .keysGiven maxCounter state)
    if allocated.success then
      let before := allocated.state
      let copied : AesState :=
        { before with
          cfg :=
            { before.cfg with
              keys :=
                { before.cfg.keys with
                  keys := copyKeys keys keyLength before.cfg.keys.keys
                  nonces :=
                    copyKeys nonces (keyLength / 2)
                      before.cfg.keys.nonces } } }
      [keyToOpensslHands copied]
    else
      []

/-- What `key_generate` hands over. -/
def keyGenerateHands (state : AesState) : List Handed :=
  let key := randBytes ssl state.cfg.keys.keyLength state
  match key.bytes with
  | none => []
  | some keyBytes =>
      let stored := storeKey keyBytes key.state
      let nonce := randBytes ssl stored.cfg.keys.keyLength stored
      match nonce.bytes with
      | none => []
      | some nonceBytes =>
          [keyToOpensslHands (storeNonce nonceBytes nonce.state)]

/-- What `keys_change` hands over. -/
def keysChangeHands (state : AesState) : List Handed :=
  let rotated := keysChangeRotation ssl (selectNext state)
  if rotated.success then
    [keyToOpensslHands rotated.state]
  else
    []

/-- What `counter` hands over. -/
def counterHands (num : Nat) (state : AesState) : List Handed :=
  if KeyChangeDue num state then
    match state.cfg.keysType with
    | .keysGiven => keysChangeHands ssl state
    | .keysGenerated => keyGenerateHands ssl state
  else
    []

/-- What the code of `load_keys` after its loop hands over. -/
def setLoadedKeysHands (load : KeyLoad) : List Handed :=
  if load.amount = 0 then
    []
  else
    rdrandSetAesKeysHands ssl load.amount load.firstLen load.keys
      load.nonces load.aes

/-- What `load_keys` hands over. -/
def loadKeysHands (contents : List Char) (state : AesState) : List Handed :=
  match (loadKeysLoop ssl heap).run (contents.length + 1)
      (loadStart contents state) with
  | .left .eof load => setLoadedKeysHands ssl load
  | _ => []

end Functions

/-- The strings OpenSSL was keyed with. -/
def keyings (log : List AesEvent) : List Handed :=
  log.filterMap fun
    | .keyed key nonce => some { key := key, nonce := nonce }
    | .keysChange _ => none
    | .payload _ => none

/--
Between two states, so many calls of `EVP_CipherInit_ex` were made as strings
were handed over, and OpenSSL was keyed with no others.
-/
structure HandsOver
    (before : AesState)
    (handed : List Handed)
    (after : AesState) : Prop where
  calls : after.initCalls = before.initCalls + handed.length
  keyed :
    ∃ events,
      after.log = before.log ++ events ∧ (keyings events).Sublist handed

/--
A part of a run over keys of one length: it keeps the lengths of the stored
strings, and hands over no others.
-/
structure KeyStep
    (length : Nat)
    (before : AesState)
    (handed : List Handed)
    (after : AesState) : Prop extends HandsOver before handed after where
  strings : after.cfg.keys.Strings length
  lengths :
    ∀ call ∈ handed,
      call.key.length = length ∧ call.nonce.length = length

/-- Writing to the front of a key keeps the lengths of the strings. -/
theorem Keys.Strings.writeKey
    {length : Nat}
    {keys : Keys}
    (strings : keys.Strings length)
    (index : Nat)
    {bytes : List Byte}
    (fits : bytes.length = length) :
    ({ keys with keys := keys.keys.write index bytes } : Keys).Strings
      length :=
  { strings with
    keySlots := by
      rw [KeyArray.write_slots_length]
      exact strings.keySlots
    keyStrings := strings.keyStrings.write index (Nat.le_of_eq fits) }

/-- Writing to the front of a nonce keeps the lengths of the strings. -/
theorem Keys.Strings.writeNonce
    {length : Nat}
    {keys : Keys}
    (strings : keys.Strings length)
    (index : Nat)
    {bytes : List Byte}
    (fits : bytes.length = length) :
    ({ keys with nonces := keys.nonces.write index bytes } : Keys).Strings
      length :=
  { strings with
    nonceSlots := by
      rw [KeyArray.write_slots_length]
      exact strings.nonceSlots
    nonceStrings := strings.nonceStrings.write index (Nat.le_of_eq fits) }

theorem keyings_append (first second : List AesEvent) :
    keyings (first ++ second) = keyings first ++ keyings second :=
  List.filterMap_append

section Steps

variable
  (ssl : OpenSsl)
  {length : Nat}
  {before middle after : AesState}
  {handed more : List Handed}

/-- Strings that are handed over one after another. -/
theorem HandsOver.trans
    (first : HandsOver before handed middle)
    (second : HandsOver middle more after) :
    HandsOver before (handed ++ more) after := by
  obtain ⟨earlier, firstLog, firstKeyed⟩ := first.keyed
  obtain ⟨later, secondLog, secondKeyed⟩ := second.keyed
  refine ⟨?_, earlier ++ later, ?_, ?_⟩
  · rw [second.calls, first.calls, List.length_append, Nat.add_assoc]
  · rw [secondLog, firstLog, List.append_assoc]
  · rw [keyings_append]
    exact firstKeyed.append secondKeyed

/-- Nothing is handed over, and OpenSSL is not keyed. -/
theorem HandsOver.none
    {events : List AesEvent}
    (calls : after.initCalls = before.initCalls)
    (log : after.log = before.log ++ events)
    (silent : keyings events = []) :
    HandsOver before [] after :=
  ⟨calls, events, log, silent ▸ List.Sublist.refl []⟩

/-- `key_to_openssl` hands over the current strings. -/
theorem keyToOpenssl_handsOver (state : AesState) :
    HandsOver state [keyToOpensslHands state]
      (keyToOpenssl ssl state).state := by
  unfold keyToOpenssl
  simp only
  split
  · exact ⟨rfl, _, rfl, List.Sublist.refl _⟩
  · exact ⟨rfl, [], (List.append_nil _).symm, List.nil_sublist _⟩

theorem KeyStep.trans
    (first : KeyStep length before handed middle)
    (second : KeyStep length middle more after) :
    KeyStep length before (handed ++ more) after :=
  { first.toHandsOver.trans second.toHandsOver with
    strings := second.strings
    lengths := by
      intro call member
      rcases List.mem_append.mp member with earlier | later
      · exact first.lengths call earlier
      · exact second.lengths call later }

/-- A step that hands over nothing. -/
theorem KeyStep.none
    {events : List AesEvent}
    (strings : after.cfg.keys.Strings length)
    (calls : after.initCalls = before.initCalls)
    (log : after.log = before.log ++ events)
    (silent : keyings events = []) :
    KeyStep length before [] after :=
  { HandsOver.none calls log silent with
    strings := strings
    lengths := nofun }

variable {state : AesState}

/-- Handing over the current strings. -/
theorem keyToOpenssl_keyStep
    (strings : state.cfg.keys.Strings length) :
    KeyStep length state [keyToOpensslHands state]
      (keyToOpenssl ssl state).state :=
  { keyToOpenssl_handsOver ssl state with
    strings := by
      rw [keyToOpenssl_keys]
      exact strings
    lengths := by
      intro call member
      rw [List.mem_singleton.mp member]
      exact strings.current_length }

/-- Selecting the next key. -/
theorem selectNext_keyStep
    (strings : state.cfg.keys.Strings length) :
    KeyStep length state [] (selectNext state) :=
  .none
    { strings with
      current := ⟨_, Nat.mod_lt _ strings.amountPositive, rfl, rfl⟩ }
    rfl rfl rfl

/-- Rotating the current key. -/
theorem keysChangeRotation_keyStep
    (strings : state.cfg.keys.Strings length) :
    (keysChangeRotation ssl state).success = true ∧
      KeyStep length state [] (keysChangeRotation ssl state).state := by
  obtain ⟨key, nonce, keyLength, nonceLength, success, log, _, keys, _⟩ :=
    keysChangeRotation_replaces ssl strings
  obtain ⟨index, inBounds, keyCurrent, nonceCurrent⟩ := strings.current
  refine
    ⟨success,
      .none ?_ (keysChangeRotation_initCalls ssl state)
        (log.trans (List.append_nil _).symm) rfl⟩
  rw [keys]
  have rewritten :=
    (strings.writeKey index keyLength).writeNonce index nonceLength
  simpa only [replaceCurrent, keyCurrent, nonceCurrent] using rewritten

/-- Changing to the next of the given keys. -/
theorem keysChange_keyStep
    (strings : state.cfg.keys.Strings length) :
    KeyStep length state (keysChangeHands ssl state)
      (keysChange ssl state).state := by
  have selected := selectNext_keyStep strings
  obtain ⟨success, rotated⟩ :=
    keysChangeRotation_keyStep ssl selected.strings
  unfold keysChangeHands
  rw [keysChange_eq, if_pos success]
  exact
    (selected.trans rotated).trans
      (keyToOpenssl_keyStep ssl rotated.strings)

/-- Drawing random bytes. -/
theorem randBytes_keyStep
    (strings : state.cfg.keys.Strings length)
    (num : Nat) :
    KeyStep length state [] (randBytes ssl num state).state :=
  .none strings rfl (List.append_nil _).symm rfl

/-- Storing a key that was drawn. -/
theorem storeKey_keyStep
    (strings : state.cfg.keys.Strings length)
    {bytes : List Byte}
    (fits : bytes.length = length) :
    KeyStep length state [] (storeKey bytes state) :=
  .none (strings.writeKey 0 fits) rfl (List.append_nil _).symm rfl

/-- Storing a nonce that was drawn. -/
theorem storeNonce_keyStep
    (strings : state.cfg.keys.Strings length)
    {bytes : List Byte}
    (fits : bytes.length = length) :
    KeyStep length state [] (storeNonce bytes state) :=
  .none (strings.writeNonce 0 fits) rfl (List.append_nil _).symm rfl

/-- Generating a key. -/
theorem keyGenerate_keyStep
    (strings : state.cfg.keys.Strings length) :
    KeyStep length state (keyGenerateHands ssl state)
      (keyGenerate ssl state).state := by
  have keyDrawn :=
    randBytes_keyStep ssl strings state.cfg.keys.keyLength
  unfold keyGenerateHands keyGenerate
  cases drewKey :
      (randBytes ssl state.cfg.keys.keyLength state).bytes with
  | none =>
      simp only [drewKey]
      exact keyDrawn
  | some keyBytes =>
      have keyFits : keyBytes.length = length :=
        (ssl.randBytes_length drewKey).trans strings.keyLength
      have stored :=
        keyDrawn.trans (storeKey_keyStep keyDrawn.strings keyFits)
      simp only [drewKey]
      generalize
        storeKey keyBytes
          (randBytes ssl state.cfg.keys.keyLength state).state =
            keyed at *
      have nonceDrawn :=
        stored.trans
          (randBytes_keyStep ssl stored.strings keyed.cfg.keys.keyLength)
      cases drewNonce :
          (randBytes ssl keyed.cfg.keys.keyLength keyed).bytes with
      | none =>
          exact nonceDrawn
      | some nonceBytes =>
          have nonceFits : nonceBytes.length = length :=
            (ssl.randBytes_length drewNonce).trans
              stored.strings.keyLength
          have both :=
            nonceDrawn.trans
              (storeNonce_keyStep nonceDrawn.strings nonceFits)
          exact both.trans (keyToOpenssl_keyStep ssl both.strings)

/-- Setting the counter. -/
theorem setCounter_keyStep
    (strings : state.cfg.keys.Strings length)
    (nextCounter : Nat) :
    KeyStep length state [] (setCounter nextCounter state) :=
  .none { strings with } rfl (List.append_nil _).symm rfl

/-- Drawing the counter. -/
theorem keysRandomize_keyStep
    (strings : state.cfg.keys.Strings length) :
    KeyStep length state [] (keysRandomize ssl state).state := by
  have drawn := randBytes_keyStep ssl strings 4
  unfold keysRandomize
  simp only
  split
  · exact drawn
  · exact drawn.trans (setCounter_keyStep drawn.strings _)

/-- A call of `counter`. -/
theorem counter_keyStep
    (strings : state.cfg.keys.Strings length)
    (num : Nat) :
    KeyStep length state (counterHands ssl num state)
      (counter ssl num state).state := by
  unfold counterHands counter
  split
  · cases state.cfg.keysType with
    | keysGiven =>
        have changed := keysChange_keyStep ssl strings
        have step :=
          changed.trans (setCounter_keyStep changed.strings maxCounter)
        rwa [List.append_nil] at step
    | keysGenerated =>
        have generated := keyGenerate_keyStep ssl strings
        have step :=
          generated.trans (keysRandomize_keyStep ssl generated.strings)
        rwa [List.append_nil] at step
  · exact setCounter_keyStep strings _

/-- An encryption of payload. -/
theorem encryptPayload_keyStep
    (strings : state.cfg.keys.Strings length)
    (input : List Byte) :
    KeyStep length state [] (encryptPayload ssl input state).state := by
  have kept :
      (encryptPayload ssl input state).state.cfg.keys.Strings length := by
    rw [encryptPayload_keys]
    exact strings
  unfold encryptPayload at kept ⊢
  simp only at kept ⊢
  split at kept
  · exact
      .none kept (encryptUpdate_initCalls ssl input state)
        ((encryptUpdate_log ssl input state).trans
          (List.append_nil _).symm)
        rfl
  · exact
      .none kept (encryptUpdate_initCalls ssl input state)
        (congrArg (· ++ _) (encryptUpdate_log ssl input state)) rfl

end Steps

end RdRand
