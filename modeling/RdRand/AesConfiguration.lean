import RdRand.OpenSsl

namespace RdRand

/-!
# The configuration of the AES layer

`AesCfg` is `AES_CFG`, with the stored keys and nonces it points to.  The
functions of this module are those of `librdrand-aes.c` that set the keys,
count the bytes and change the keys.  A function that returns 1 or 0 reports
`true` or `false`.

The state also numbers the calls to OpenSSL and to `malloc`, and keeps a log
of the key changes, the keyings and the payload encryptions.
-/

/-- `MAX_COUNTER`. -/
def maxCounter : Nat := 4096

/-- `MAX_BUFFER_SIZE`. -/
def maxBufferSize : Nat := 2048

/-- `DEFAULT_KEY_LEN`. -/
def defaultKeyLen : Nat := 16

/-- `RDRAND_MIN_KEY_LENGTH`. -/
def rdrandMinKeyLength : Nat := 4

/-- `RDRAND_MAX_KEY_LENGTH`. -/
def rdrandMaxKeyLength : Nat := 32

/-- The values of `keys_type`. -/
inductive KeysType where
  | keysGenerated
  | keysGiven
  deriving Repr, DecidableEq

/-- An allocated array of strings; the identity of NULL is `none`. -/
structure KeyArray where
  identity : Option Nat
  slots : List (List Byte)
  deriving Repr, DecidableEq

namespace KeyArray

/-- NULL. -/
def null : KeyArray where
  identity := none
  slots := []

/-- The string of a slot. -/
def slot (array : KeyArray) (index : Nat) : List Byte :=
  array.slots.getD index []

/-- Copy some bytes to the front of a string. -/
def overwrite (bytes string : List Byte) : List Byte :=
  bytes ++ string.drop bytes.length

/-- Copy some bytes to the front of the string of a slot. -/
def write
    (array : KeyArray)
    (index : Nat)
    (bytes : List Byte) : KeyArray :=
  { array with slots := array.slots.modify index (overwrite bytes) }

end KeyArray

/--
`t_keys`.  The current key and nonce are pointers to slots of the arrays,
given by the number of the slot.
-/
structure Keys where
  amount : Nat
  index : Nat
  nextCounter : Nat
  nonces : KeyArray
  nonceCurrent : Option Nat
  keys : KeyArray
  keyCurrent : Option Nat
  keyLength : Nat
  deriving Repr, DecidableEq

namespace Keys

/-- The string `key_current` points to. -/
def currentKey (keys : Keys) : List Byte :=
  match keys.keyCurrent with
  | none => []
  | some index => keys.keys.slot index

/-- The string `nonce_current` points to. -/
def currentNonce (keys : Keys) : List Byte :=
  match keys.nonceCurrent with
  | none => []
  | some index => keys.nonces.slot index

end Keys

/-- `aes_cfg_t`. -/
structure AesCfg where
  keys : Keys
  en : CipherContext
  keysType : KeysType
  deriving Repr, DecidableEq

/-- What happens to the cipher context and the keys, in order. -/
inductive AesEvent where
  | keysChange (slot : Nat)
  | keyed (key nonce : List Byte)
  | payload (bytes : Nat)
  deriving Repr, DecidableEq

/-- `AES_CFG` with the numbers of the calls made so far, and the log. -/
structure AesState where
  cfg : AesCfg
  randCalls : Nat
  encryptCalls : Nat
  initCalls : Nat
  mallocCalls : Nat
  contexts : Nat
  log : List AesEvent
  deriving Repr, DecidableEq

/-- `AES_CFG` before any call. -/
def aesCfg : AesCfg where
  keys :=
    { amount := 0
      index := 0
      nextCounter := 0
      nonces := .null
      nonceCurrent := none
      keys := .null
      keyCurrent := none
      keyLength := 0 }
  en := { identity := none, keyed := none, used := 0 }
  keysType := .keysGenerated

/-- The state of the library before any call. -/
def aesStart : AesState where
  cfg := aesCfg
  randCalls := 0
  encryptCalls := 0
  initCalls := 0
  mallocCalls := 0
  contexts := 0
  log := []

/-- A return value of 1 or 0, and the state after the call. -/
structure Outcome where
  success : Bool
  state : AesState

/-- What a cipher call wrote, if it succeeded, and the state after it. -/
structure Update where
  output : Option (List Byte)
  state : AesState

/-- The bytes `RAND_bytes` gave, if it succeeded, and the state after it. -/
structure Drawn where
  bytes : Option (List Byte)
  state : AesState

section Functions

variable (ssl : OpenSsl)

/-- `EVP_EncryptUpdate` on the context of the configuration. -/
def encryptUpdate (input : List Byte) (state : AesState) : Update :=
  let called : AesState :=
    { state with encryptCalls := state.encryptCalls + 1 }
  if ssl.encryptOk state.encryptCalls then
    match state.cfg.en.output ssl input with
    | none =>
        { output := none, state := called }
    | some output =>
        { output := some output
          state :=
            { called with
              cfg :=
                { state.cfg with
                  en := state.cfg.en.advance input.length } } }
  else
    { output := none, state := called }

/-- `RAND_bytes`. -/
def randBytes (num : Nat) (state : AesState) : Drawn where
  bytes := ssl.randBytes state.randCalls num
  state := { state with randCalls := state.randCalls + 1 }

/-- `isPowerOfTwo`. -/
def isPowerOfTwo (x : Nat) : Bool :=
  x != 0 && (x &&& (x - 1)) == 0

/-- `key_to_openssl`. -/
def keyToOpenssl (state : AesState) : Outcome :=
  let called : AesState := { state with initCalls := state.initCalls + 1 }
  let key := state.cfg.keys.currentKey
  let nonce := state.cfg.keys.currentNonce
  if ssl.initOk state.initCalls then
    { success := true
      state :=
        { called with
          cfg := { state.cfg with en := state.cfg.en.key key nonce }
          log := state.log ++ [.keyed key nonce] } }
  else
    { success := false, state := called }

/-- `malloc` of an array of so many zeroed strings. -/
def allocateArray
    (amount keyLength : Nat)
    (call : Nat) : KeyArray :=
  if ssl.mallocOk call then
    { identity := some call
      slots := List.replicate amount (List.replicate keyLength 0) }
  else
    .null

/-- `keys_allocate`; the strings are taken to be allocated whenever the
arrays are. -/
def keysAllocate
    (amount keyLength : Nat)
    (state : AesState) : Outcome :=
  if !isPowerOfTwo keyLength || amount == 0 then
    { success := false, state := state }
  else
    let keys := allocateArray ssl amount keyLength state.mallocCalls
    let nonces :=
      allocateArray ssl amount keyLength (state.mallocCalls + 1)
    let allocated : AesState :=
      { state with
        mallocCalls := state.mallocCalls + 2
        cfg :=
          { state.cfg with
            keys :=
              { state.cfg.keys with
                amount := amount
                keyLength := keyLength
                keys := keys
                nonces := nonces }
            en := { state.cfg.en with keyed := none, used := 0 } } }
    if keys.identity = none ∨ nonces.identity = none then
      { success := false, state := allocated }
    else
      { success := true
        state :=
          { allocated with
            cfg :=
              { allocated.cfg with
                keys :=
                  { allocated.cfg.keys with
                    keyCurrent := some 0
                    nonceCurrent := some 0 } } } }

/-- The settings that both ways of setting keys make before allocating. -/
def resetKeys
    (keysType : KeysType)
    (nextCounter : Nat)
    (state : AesState) : AesState :=
  { state with
    contexts := state.contexts + 1
    cfg :=
      { state.cfg with
        en :=
          { identity := some state.contexts
            keyed := none
            used := 0 }
        keysType := keysType
        keys :=
          { state.cfg.keys with
            index := 0
            nextCounter := nextCounter
            keyCurrent := none } } }

/-- Copy the given strings, cut to a length, into the slots of an array. -/
def copyKeys
    (given : List (List Byte))
    (length : Nat)
    (array : KeyArray) : KeyArray :=
  { array with
    slots :=
      array.slots.mapIdx fun index string =>
        KeyArray.overwrite ((given.getD index []).take length) string }

/-- `rdrand_set_aes_keys`. -/
def rdrandSetAesKeys
    (amount keyLength : Nat)
    (keys nonces : List (List Byte))
    (state : AesState) : Outcome :=
  if keyLength ≤ rdrandMinKeyLength ∨ rdrandMaxKeyLength ≤ keyLength then
    { success := false, state := state }
  else
    let allocated :=
      keysAllocate ssl amount keyLength
        (resetKeys .keysGiven maxCounter state)
    if allocated.success then
      let before := allocated.state
      let copied : AesState :=
        { before with
          cfg :=
            { before.cfg with
              keys :=
                { before.cfg.keys with
                  keys := copyKeys keys keyLength before.cfg.keys.keys
                  nonces :=
                    copyKeys nonces (keyLength / 2)
                      before.cfg.keys.nonces } } }
      { success := true, state := (keyToOpenssl ssl copied).state }
    else
      { success := false, state := allocated.state }

/-- Write some bytes to the front of the first stored key. -/
def storeKey (bytes : List Byte) (state : AesState) : AesState :=
  { state with
    cfg :=
      { state.cfg with
        keys :=
          { state.cfg.keys with
            keys := state.cfg.keys.keys.write 0 bytes } } }

/-- Write some bytes to the front of the first stored nonce. -/
def storeNonce (bytes : List Byte) (state : AesState) : AesState :=
  { state with
    cfg :=
      { state.cfg with
        keys :=
          { state.cfg.keys with
            nonces := state.cfg.keys.nonces.write 0 bytes } } }

/-- `key_generate`. -/
def keyGenerate (state : AesState) : Outcome :=
  let key := randBytes ssl state.cfg.keys.keyLength state
  match key.bytes with
  | none =>
      { success := false, state := key.state }
  | some keyBytes =>
      let stored := storeKey keyBytes key.state
      let nonce := randBytes ssl stored.cfg.keys.keyLength stored
      match nonce.bytes with
      | none =>
          { success := false, state := nonce.state }
      | some nonceBytes =>
          { success := true
            state :=
              (keyToOpenssl ssl
                (storeNonce nonceBytes nonce.state)).state }

/-- `rdrand_set_aes_random_key`. -/
def rdrandSetAesRandomKey (state : AesState) : Outcome :=
  let allocated :=
    keysAllocate ssl 1 defaultKeyLen (resetKeys .keysGenerated 0 state)
  if allocated.success then
    keyGenerate ssl allocated.state
  else
    { success := false, state := allocated.state }

/-- The little-endian value of some bytes. -/
def littleEndian : List Byte → Nat
  | [] => 0
  | byte :: rest => byte.toNat + 256 * littleEndian rest

/--
The counter that `keys_randomize` draws, `((double)buf/UINT_MAX)*MAX_COUNTER`
in exact arithmetic.
-/
def randomCounter (buf : Nat) : Nat :=
  buf * maxCounter / (uintModulus - 1)

/-- Set `next_counter`. -/
def setCounter (nextCounter : Nat) (state : AesState) : AesState :=
  { state with
    cfg :=
      { state.cfg with
        keys := { state.cfg.keys with nextCounter := nextCounter } } }

/-- `keys_randomize`. -/
def keysRandomize (state : AesState) : Outcome :=
  let buf := randBytes ssl 4 state
  match buf.bytes with
  | none =>
      { success := false, state := buf.state }
  | some bytes =>
      { success := true
        state :=
          setCounter (randomCounter (littleEndian bytes)) buf.state }

/-- Replace the strings the current key and nonce point to. -/
def replaceCurrent
    (key nonce : List Byte)
    (keys : Keys) : Keys :=
  { keys with
    keys :=
      match keys.keyCurrent with
      | none => keys.keys
      | some index => keys.keys.write index key
    nonces :=
      match keys.nonceCurrent with
      | none => keys.nonces
      | some index => keys.nonces.write index nonce }

/-- `keys_change_rotation`, which ignores the results of its cipher calls. -/
def keysChangeRotation (state : AesState) : Outcome :=
  if state.cfg.keys.keyCurrent = none then
    { success := false, state := state }
  else
    let length := state.cfg.keys.keyLength
    let first :=
      encryptUpdate ssl (state.cfg.keys.currentKey.take length) state
    let second :=
      encryptUpdate ssl (state.cfg.keys.currentNonce.take length)
        first.state
    let key :=
      first.output.getD (ssl.leftover state.encryptCalls length)
    let nonce :=
      second.output.getD
        (ssl.leftover first.state.encryptCalls length)
    { success := true
      state :=
        { second.state with
          cfg :=
            { second.state.cfg with
              keys :=
                replaceCurrent key nonce second.state.cfg.keys } } }

/-- The choice of the next key in `keys_change`. -/
def selectNext (state : AesState) : AesState :=
  let index :=
    (state.cfg.keys.index + 1) % uintModulus % state.cfg.keys.amount
  { state with
    cfg :=
      { state.cfg with
        keys :=
          { state.cfg.keys with
            index := index
            keyCurrent := some index
            nonceCurrent := some index } }
    log := state.log ++ [.keysChange index] }

/-- `keys_change`. -/
def keysChange (state : AesState) : Outcome :=
  let rotated := keysChangeRotation ssl (selectNext state)
  if rotated.success then
    { success := true, state := (keyToOpenssl ssl rotated.state).state }
  else
    { success := false, state := rotated.state }

/-- `counter(num)` changes the key. -/
def KeyChangeDue (num : Nat) (state : AesState) : Prop :=
  state.cfg.keys.nextCounter = 0 ∨ state.cfg.keys.nextCounter < num

instance (num : Nat) (state : AesState) :
    Decidable (KeyChangeDue num state) :=
  inferInstanceAs (Decidable (_ ∨ _))

/--
`counter`.  Its result is 0 as long as no key change is due: the variable
`result` is set by a key change only.
-/
def counter (num : Nat) (state : AesState) : Outcome :=
  if KeyChangeDue num state then
    match state.cfg.keysType with
    | .keysGiven =>
        let changed := keysChange ssl state
        { success := changed.success
          state := setCounter maxCounter changed.state }
    | .keysGenerated =>
        let generated := keyGenerate ssl state
        { success := generated.success
          state := (keysRandomize ssl generated.state).state }
  else
    { success := false
      state :=
        setCounter
          ((state.cfg.keys.nextCounter + (uintModulus - num)) %
            uintModulus)
          state }

end Functions

end RdRand
