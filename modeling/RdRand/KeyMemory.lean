import RdRand.AesLifecycle
import RdRand.KeySettings
import RdRand.MemoryBlocks

namespace RdRand

/-!
# The memory that holds the keys

The keys and the nonces are strings on the heap, each with an array of the
pointers to them.  The functions of the library are followed here through the
memory: what they allocate, lock, write, read through a pointer, overwrite
with zeros, unlock and free, in the order of the source.  Blocks are told
apart by the call of `malloc` that made their array.

Pointers are read from and written to their arrays without an event.  The
cipher counts as reading its sixteen bytes whether `EVP_CipherInit_ex`
succeeds or not.
-/

open MemoryBlocks

/-- A block on the heap; nothing is ever allocated at NULL. -/
inductive Block where
  | null
  | array (call : Nat)
  | string (call index : Nat)
  deriving Repr, DecidableEq

/-- What the functions do to the blocks. -/
abbrev BlockEvents := List (MemoryBlocks.Event Block)

namespace KeyArray

/-- The block of an array of pointers. -/
def block (array : KeyArray) : Block :=
  match array.identity with
  | none => .null
  | some call => .array call

/-- The block of a string. -/
def string (array : KeyArray) (index : Nat) : Block :=
  match array.identity with
  | none => .null
  | some call => .string call index

/-- The blocks of an array that was allocated. -/
def mallocMemory (array : KeyArray) (size : Nat) : BlockEvents :=
  if array.identity = none then
    []
  else
    on array.block [.allocate size]

end KeyArray

/--
What the system answers: the limit of the memory to lock where `getrlimit`
succeeds, and whether `mlock` and `munlock` do.
-/
structure MemoryLocks where
  limit : Option Nat
  mlockOk : Block → Bool
  munlockOk : Block → Bool

/-- What a function returns, and what it does to the block it is given. -/
structure LockResult where
  success : Bool
  actions : List Action

/-- The size of a pointer. -/
def pointerSize : Nat := 8

/-- The strings of both arrays, in the order in which loops go over them. -/
def stringBlocks (keys nonces : KeyArray) (amount : Nat) : List Block :=
  (List.range amount).flatMap fun index =>
    [keys.string index, nonces.string index]

section Locks

variable (locks : MemoryLocks)

/-- `keys_mem_lock`. -/
def keysMemLock (block : Block) (len : Nat) : LockResult :=
  match locks.limit with
  | none =>
      { success := false, actions := [] }
  | some current =>
      let mlockLimit := current % uintModulus / 4
      if len ≤ mlockLimit then
        if locks.mlockOk block then
          { success := true, actions := [.lock] }
        else
          { success := false, actions := [] }
      else
        { success := true, actions := [] }

/-- `keys_mem_unlock`. -/
def keysMemUnlock (block : Block) (len : Nat) : LockResult :=
  if locks.munlockOk block then
    { success := true, actions := [.clear len, .unlock] }
  else
    { success := false, actions := [.clear len] }

/-- Allocate a string, clear it and lock it. -/
def allocateString (keyLength : Nat) (block : Block) : BlockEvents :=
  on block
    ([.allocate keyLength, .clear keyLength] ++
      (keysMemLock locks block keyLength).actions)

/-- Clear a string, unlock it and free it. -/
def freeString (keyLength : Nat) (block : Block) : BlockEvents :=
  on block
    ([.clear keyLength] ++
      (keysMemUnlock locks block keyLength).actions ++
      [.release])

/-- `keys_free`. -/
def keysFreeMemory (keys : Keys) : BlockEvents :=
  if keys.keys.identity = none then
    []
  else
    let size := pointerSize * keys.amount
    let keyArray := keys.keys.block
    let nonceArray := keys.nonces.block
    (stringBlocks keys.keys keys.nonces keys.amount).flatMap
        (freeString locks keys.keyLength) ++
      on keyArray [.clear size] ++
      on nonceArray [.clear size] ++
      on keyArray (keysMemUnlock locks keyArray size).actions ++
      on nonceArray (keysMemUnlock locks nonceArray size).actions ++
      on keyArray [.release] ++
      on nonceArray [.release]

end Locks

/-- What `EVP_CipherInit_ex` reads through a pointer that is not NULL. -/
def pointerMemory
    (array : KeyArray)
    (current : Option Nat) : BlockEvents :=
  match current with
  | none => []
  | some index => on (array.string index) [.load evpAes128CtrLength]

/-- `key_to_openssl`. -/
def keyToOpensslMemory (keys : Keys) : BlockEvents :=
  pointerMemory keys.keys keys.keyCurrent ++
    pointerMemory keys.nonces keys.nonceCurrent

/--
`keys_change_rotation`, which encrypts both strings before it writes the
results back.
-/
def keysChangeRotationMemory (keys : Keys) : BlockEvents :=
  match keys.keyCurrent, keys.nonceCurrent with
  | some key, some nonce =>
      on (keys.keys.string key) [.load keys.keyLength] ++
        on (keys.nonces.string nonce) [.load keys.keyLength] ++
        on (keys.keys.string key) [.store keys.keyLength] ++
        on (keys.nonces.string nonce) [.store keys.keyLength]
  | some key, none =>
      on (keys.keys.string key) [.load keys.keyLength] ++
        on .null [.load keys.keyLength]
  | none, _ => []

section Functions

variable (ssl : OpenSsl) (locks : MemoryLocks)

/-- `keys_allocate`. -/
def keysAllocateMemory
    (amount keyLength : Nat)
    (state : AesState) : BlockEvents :=
  if !isPowerOfTwo keyLength || amount == 0 then
    []
  else
    let size := pointerSize * amount
    let keys := allocateArray ssl amount keyLength state.mallocCalls
    let nonces :=
      allocateArray ssl amount keyLength (state.mallocCalls + 1)
    let arrays := keys.mallocMemory size ++ nonces.mallocMemory size
    if keys.identity = none ∨ nonces.identity = none then
      arrays
    else
      arrays ++
        on keys.block (keysMemLock locks keys.block size).actions ++
        on nonces.block (keysMemLock locks nonces.block size).actions ++
        (stringBlocks keys nonces amount).flatMap
          (allocateString locks keyLength)

/-- The copies that `rdrand_set_aes_keys` makes of the given strings. -/
def copyKeysMemory (amount keyLength : Nat) (keys : Keys) : BlockEvents :=
  (List.range amount).flatMap fun index =>
    on (keys.keys.string index) [.store keyLength] ++
      on (keys.nonces.string index) [.store (keyLength / 2)]

/-- `rdrand_set_aes_keys`. -/
def rdrandSetAesKeysMemory
    (amount keyLength : Nat)
    (state : AesState) : BlockEvents :=
  if keyLength ≤ rdrandMinKeyLength ∨ rdrandMaxKeyLength ≤ keyLength then
    []
  else
    let before := resetKeys .keysGiven maxCounter state
    let allocated := keysAllocate ssl amount keyLength before
    keysAllocateMemory ssl locks amount keyLength before ++
      if allocated.success then
        copyKeysMemory amount keyLength allocated.state.cfg.keys ++
          keyToOpensslMemory allocated.state.cfg.keys
      else
        []

/-- `key_generate`. -/
def keyGenerateMemory (state : AesState) : BlockEvents :=
  let keys := state.cfg.keys
  let key := randBytes ssl keys.keyLength state
  match key.bytes with
  | none => []
  | some keyBytes =>
      let stored := storeKey keyBytes key.state
      on (keys.keys.string 0) [.store keys.keyLength] ++
        match (randBytes ssl stored.cfg.keys.keyLength stored).bytes with
        | none => []
        | some _ =>
            on (keys.nonces.string 0) [.store keys.keyLength] ++
              keyToOpensslMemory keys

/-- `rdrand_set_aes_random_key`. -/
def rdrandSetAesRandomKeyMemory (state : AesState) : BlockEvents :=
  let before := resetKeys .keysGenerated 0 state
  let allocated := keysAllocate ssl 1 defaultKeyLen before
  keysAllocateMemory ssl locks 1 defaultKeyLen before ++
    if allocated.success then
      keyGenerateMemory ssl allocated.state
    else
      []

/-- A call that sets or discards keys; `rdrand_clean_aes` is `keys_free`. -/
def KeysCall.memory (state : AesState) : KeysCall → BlockEvents
  | .setAesKeys amount keyLength _ _ =>
      rdrandSetAesKeysMemory ssl locks amount keyLength state
  | .setAesRandomKey => rdrandSetAesRandomKeyMemory ssl locks state
  | .cleanAes => keysFreeMemory locks state.cfg.keys

/-- `keys_change`. -/
def keysChangeMemory (state : AesState) : BlockEvents :=
  let selected := selectNext state
  keysChangeRotationMemory selected.cfg.keys ++
    if (keysChangeRotation ssl selected).success then
      keyToOpensslMemory selected.cfg.keys
    else
      []

/-- `counter`. -/
def counterMemory (num : Nat) (state : AesState) : BlockEvents :=
  if KeyChangeDue num state then
    match state.cfg.keysType with
    | .keysGiven => keysChangeMemory ssl state
    | .keysGenerated => keyGenerateMemory ssl state
  else
    []

/-- `rdrand_enc_buffer`; the tail is not counted. -/
def encBufferMemory : Nat → List Byte → AesState → BlockEvents
  | 0, _, _ => []
  | chunks + 1, source, state =>
      let counted := counter ssl maxBufferSize state
      let update :=
        encryptPayload ssl (source.take maxBufferSize) counted.state
      counterMemory ssl maxBufferSize state ++
        if counted.success ∧ update.output.isSome then
          encBufferMemory chunks (source.drop maxBufferSize) update.state
        else
          []

/-- The chunks of `rdrand_get_bytes_aes_ctr`. -/
def ctrMemory
    (acquire : Nat → Nat → Acquired) :
    List Nat → Nat → AesState → BlockEvents
  | [], _, _ => []
  | size :: rest, position, state =>
      let counted := counter ssl size state
      let acquired := acquire size position
      counterMemory ssl size state ++
        match acquired.bytes with
        | none => []
        | some bytes =>
            let update := encryptPayload ssl bytes counted.state
            if update.output.isSome then
              ctrMemory acquire rest acquired.position update.state
            else
              []

/-- A call to one of the encrypting functions. -/
def AesCall.memory
    (device : Device)
    (buffer : StackBuffer)
    (run : AesRun) : AesCall → BlockEvents
  | .getBytesAesCtr count retryLimit =>
      ctrMemory ssl (acquireBuffer device buffer retryLimit)
        (chunkSizes count) run.position run.state
  | .encBuffer source =>
      encBufferMemory ssl (source.length / maxBufferSize) source run.state

end Functions

/-- A call of the library. -/
inductive LibraryCall where
  | keys (call : KeysCall)
  | aes (call : AesCall)

section Calls

variable
  (ssl : OpenSsl)
  (locks : MemoryLocks)
  (device : Device)
  (buffer : StackBuffer)

/-- The library after a call. -/
def LibraryCall.perform (run : AesRun) : LibraryCall → AesRun
  | .keys call => { run with state := call.perform ssl run.state }
  | .aes call => runCall ssl device buffer run call

/-- What a call does to the blocks. -/
def LibraryCall.memory (run : AesRun) : LibraryCall → BlockEvents
  | .keys call => call.memory ssl locks run.state
  | .aes call => call.memory ssl device buffer run

/-- The library after a sequence of calls. -/
def libraryRun (calls : List LibraryCall) (run : AesRun) : AesRun :=
  calls.foldl (LibraryCall.perform ssl device buffer) run

/-- What a sequence of calls does to the blocks. -/
def libraryMemory : List LibraryCall → AesRun → BlockEvents
  | [], _ => []
  | call :: rest, run =>
      call.memory ssl locks device buffer run ++
        libraryMemory rest (call.perform ssl device buffer run)

end Calls

end RdRand
