import RdRand.KeyMemory

namespace RdRand

/-!
# The blocks of a configuration

While there are keys, the two arrays and their strings are allocated with the
sizes that `AES_CFG` says, and the current pointers lead into them.  Everything
the encrypting functions do then stays within these blocks.
-/

open MemoryBlocks

/-- The call of `malloc` that a block goes back to. -/
def Block.call : Block → Option Nat
  | .null => none
  | .array call => some call
  | .string call _ => some call

namespace KeyArray

/-- An array of strings is allocated. -/
structure Held
    (array : KeyArray)
    (amount keyLength : Nat)
    (memory : Heap Block) : Prop where
  pointers : (memory array.block).Allocated (pointerSize * amount)
  strings :
    ∀ index < amount, (memory (array.string index)).Allocated keyLength

theorem Held.kept
    {array : KeyArray}
    {amount keyLength : Nat}
    {memory final : Heap Block}
    (held : array.Held amount keyLength memory)
    (kept : Kept memory final) :
    array.Held amount keyLength final where
  pointers := kept.allocated held.pointers
  strings index below := kept.allocated (held.strings index below)

/-- The blocks of an array depend on where it is, not on what it holds. -/
theorem block_congr
    {array other : KeyArray}
    (same : other.identity = array.identity) :
    other.block = array.block := by
  unfold block
  rw [same]

theorem string_congr
    {array other : KeyArray}
    (same : other.identity = array.identity)
    (index : Nat) :
    other.string index = array.string index := by
  unfold string
  rw [same]

theorem Held.congr
    {array other : KeyArray}
    {amount keyLength : Nat}
    {memory : Heap Block}
    (held : array.Held amount keyLength memory)
    (same : other.identity = array.identity) :
    other.Held amount keyLength memory where
  pointers := by
    rw [block_congr same]
    exact held.pointers
  strings index below := by
    rw [string_congr same]
    exact held.strings index below

end KeyArray

namespace Keys

/-- The current pointers lead to strings, both or none. -/
structure CurrentWithin (keys : Keys) : Prop where
  key : ∀ index ∈ keys.keyCurrent, index < keys.amount
  nonce : ∀ index ∈ keys.nonceCurrent, index < keys.amount
  paired : keys.keyCurrent ≠ none → keys.nonceCurrent ≠ none

/-- The keys are allocated. -/
structure Held (keys : Keys) (memory : Heap Block) : Prop where
  keyArray : keys.keys.Held keys.amount keys.keyLength memory
  nonceArray : keys.nonces.Held keys.amount keys.keyLength memory
  some : 0 < keys.amount
  current : keys.CurrentWithin

/-- The pointers stay, except that other keys may become the current ones. -/
structure PointersKept (before after : Keys) : Prop where
  keys : after.keys.identity = before.keys.identity
  nonces : after.nonces.identity = before.nonces.identity
  amount : after.amount = before.amount
  keyLength : after.keyLength = before.keyLength
  current :
    0 < before.amount → before.CurrentWithin → after.CurrentWithin

theorem PointersKept.refl (keys : Keys) : PointersKept keys keys where
  keys := rfl
  nonces := rfl
  amount := rfl
  keyLength := rfl
  current _ within := within

theorem PointersKept.trans
    {before middle after : Keys}
    (first : PointersKept before middle)
    (second : PointersKept middle after) :
    PointersKept before after where
  keys := second.keys.trans first.keys
  nonces := second.nonces.trans first.nonces
  amount := second.amount.trans first.amount
  keyLength := second.keyLength.trans first.keyLength
  current some within :=
    second.current (first.amount.symm ▸ some) (first.current some within)

/-- Keys that are held are so with the same pointers and kept blocks. -/
theorem Held.kept
    {before after : Keys}
    {memory final : Heap Block}
    (held : before.Held memory)
    (pointers : PointersKept before after)
    (kept : Kept memory final) :
    after.Held final where
  keyArray := by
    rw [pointers.amount, pointers.keyLength]
    exact (held.keyArray.congr pointers.keys).kept kept
  nonceArray := by
    rw [pointers.amount, pointers.keyLength]
    exact (held.nonceArray.congr pointers.nonces).kept kept
  some := by
    rw [pointers.amount]
    exact held.some
  current := pointers.current held.some held.current

end Keys

section Pointers

variable (ssl : OpenSsl)

theorem setCounter_pointers (nextCounter : Nat) (state : AesState) :
    Keys.PointersKept state.cfg.keys
      (setCounter nextCounter state).cfg.keys where
  keys := rfl
  nonces := rfl
  amount := rfl
  keyLength := rfl
  current _ within := ⟨within.key, within.nonce, within.paired⟩

theorem storeKey_pointers (bytes : List Byte) (state : AesState) :
    Keys.PointersKept state.cfg.keys (storeKey bytes state).cfg.keys where
  keys := rfl
  nonces := rfl
  amount := rfl
  keyLength := rfl
  current _ within := ⟨within.key, within.nonce, within.paired⟩

theorem storeNonce_pointers (bytes : List Byte) (state : AesState) :
    Keys.PointersKept state.cfg.keys
      (storeNonce bytes state).cfg.keys where
  keys := rfl
  nonces := rfl
  amount := rfl
  keyLength := rfl
  current _ within := ⟨within.key, within.nonce, within.paired⟩

/-- The next key is one of those there are. -/
theorem selectNext_pointers (state : AesState) :
    Keys.PointersKept state.cfg.keys (selectNext state).cfg.keys where
  keys := rfl
  nonces := rfl
  amount := rfl
  keyLength := rfl
  current some _ := by
    have below :
        (state.cfg.keys.index + 1) % uintModulus %
            state.cfg.keys.amount <
          state.cfg.keys.amount :=
      Nat.mod_lt _ some
    refine ⟨?_, ?_, fun _ => Option.some_ne_none _⟩
    · rintro _ ⟨⟩
      exact below
    · rintro _ ⟨⟩
      exact below

theorem replaceCurrent_pointers (key nonce : List Byte) (keys : Keys) :
    Keys.PointersKept keys (replaceCurrent key nonce keys) where
  keys := (replaceCurrent_identity key nonce keys).1
  nonces := (replaceCurrent_identity key nonce keys).2
  amount := rfl
  keyLength := rfl
  current _ within := ⟨within.key, within.nonce, within.paired⟩

theorem keysChangeRotation_pointers (state : AesState) :
    Keys.PointersKept state.cfg.keys
      (keysChangeRotation ssl state).state.cfg.keys := by
  unfold keysChangeRotation
  split
  · exact .refl _
  · simp only [encryptUpdate_keys]
    exact replaceCurrent_pointers _ _ _

theorem keysChange_pointers (state : AesState) :
    Keys.PointersKept state.cfg.keys
      (keysChange ssl state).state.cfg.keys := by
  rw [keysChange_eq, keyToOpenssl_keys]
  exact
    (selectNext_pointers state).trans
      (keysChangeRotation_pointers ssl (selectNext state))

theorem keyGenerate_pointers (state : AesState) :
    Keys.PointersKept state.cfg.keys
      (keyGenerate ssl state).state.cfg.keys := by
  unfold keyGenerate
  simp only
  split
  · exact .refl _
  · split
    · exact storeKey_pointers _ _
    · rw [keyToOpenssl_keys]
      exact (storeKey_pointers _ _).trans (storeNonce_pointers _ _)

theorem keysRandomize_pointers (state : AesState) :
    Keys.PointersKept state.cfg.keys
      (keysRandomize ssl state).state.cfg.keys := by
  unfold keysRandomize
  simp only
  split
  · exact .refl _
  · exact setCounter_pointers _ _

/-- `counter` keeps the pointers, but may choose other current keys. -/
theorem counter_pointers (num : Nat) (state : AesState) :
    Keys.PointersKept state.cfg.keys
      (counter ssl num state).state.cfg.keys := by
  unfold counter
  split
  · split
    · exact
        (keysChange_pointers ssl state).trans (setCounter_pointers _ _)
    · exact
        (keyGenerate_pointers ssl state).trans
          (keysRandomize_pointers ssl _)
  · exact setCounter_pointers _ _

end Pointers

section Uses

variable
  (ssl : OpenSsl)
  {keys : Keys}
  {memory : Heap Block}

/-- The cipher reads the current strings within their length. -/
theorem keyToOpenssl_uses
    (held : keys.Held memory)
    (long : evpAes128CtrLength ≤ keys.keyLength) :
    Uses memory (keyToOpensslMemory keys) := by
  refine .append ?_ ?_
  · cases current : keys.keyCurrent with
    | none =>
        exact nofun
    | some index =>
        exact
          .on (held.keyArray.strings index (held.current.key index current))
            long
  · cases current : keys.nonceCurrent with
    | none =>
        exact nofun
    | some index =>
        exact
          .on
            (held.nonceArray.strings index
              (held.current.nonce index current))
            long

/-- A rotation reads and writes the current strings in full. -/
theorem keysChangeRotation_uses
    (held : keys.Held memory) :
    Uses memory (keysChangeRotationMemory keys) := by
  unfold keysChangeRotationMemory
  split
  · next key nonce keyCurrent nonceCurrent =>
      have keyString :=
        held.keyArray.strings key (held.current.key key keyCurrent)
      have nonceString :=
        held.nonceArray.strings nonce
          (held.current.nonce nonce nonceCurrent)
      exact
        (((Uses.on keyString (Nat.le_refl _)).append
          (.on nonceString (Nat.le_refl _))).append
          (.on keyString (Nat.le_refl _))).append
          (.on nonceString (Nat.le_refl _))
  · next key keyCurrent nonceCurrent =>
      refine absurd nonceCurrent (held.current.paired ?_)
      rw [keyCurrent]
      exact Option.some_ne_none key
  · exact nofun

/-- A new key is written to the first strings. -/
theorem keyGenerate_uses
    {state : AesState}
    (held : state.cfg.keys.Held memory)
    (long : evpAes128CtrLength ≤ state.cfg.keys.keyLength) :
    Uses memory (keyGenerateMemory ssl state) := by
  unfold keyGenerateMemory
  simp only
  split
  · exact nofun
  · refine
      .append (.on (held.keyArray.strings 0 held.some) (Nat.le_refl _)) ?_
    split
    · exact nofun
    · exact
        .append
          (.on (held.nonceArray.strings 0 held.some) (Nat.le_refl _))
          (keyToOpenssl_uses held long)

theorem keysChange_uses
    {state : AesState}
    (held : state.cfg.keys.Held memory)
    (long : evpAes128CtrLength ≤ state.cfg.keys.keyLength) :
    Uses memory (keysChangeMemory ssl state) := by
  have selected : (selectNext state).cfg.keys.Held memory :=
    held.kept (selectNext_pointers state) (.refl memory)
  unfold keysChangeMemory
  simp only
  refine .append (keysChangeRotation_uses selected) ?_
  split
  · exact keyToOpenssl_uses selected long
  · exact nofun

theorem counter_uses
    (num : Nat)
    {state : AesState}
    (held : state.cfg.keys.Held memory)
    (long : evpAes128CtrLength ≤ state.cfg.keys.keyLength) :
    Uses memory (counterMemory ssl num state) := by
  unfold counterMemory
  split
  · split
    · exact keysChange_uses ssl held long
    · exact keyGenerate_uses ssl held long
  · exact nofun

/-- The given strings are copied into strings of their length. -/
theorem copyKeys_uses
    (held : keys.Held memory) :
    Uses memory (copyKeysMemory keys.amount keys.keyLength keys) := by
  intro event member
  obtain ⟨index, within, member⟩ := List.mem_flatMap.mp member
  have below := List.mem_range.mp within
  have uses :
      Uses memory
        (on (keys.keys.string index) [.store keys.keyLength] ++
          on (keys.nonces.string index) [.store (keys.keyLength / 2)]) :=
    .append (.on (held.keyArray.strings index below) (Nat.le_refl _))
      (.on (held.nonceArray.strings index below) (Nat.div_le_self _ 2))
  exact uses event member

/-- The chunks of `rdrand_enc_buffer` use the blocks of the keys. -/
theorem encBuffer_keeps
    (chunks : Nat)
    (source : List Byte)
    {state : AesState}
    (held : state.cfg.keys.Held memory)
    (long : evpAes128CtrLength ≤ state.cfg.keys.keyLength) :
    ∃ final,
      run (encBufferMemory ssl chunks source state) memory =
          some final ∧
        Kept memory final := by
  induction chunks generalizing source state memory with
  | zero =>
      exact ⟨memory, rfl, .refl memory⟩
  | succ chunks inductionHypothesis =>
      obtain ⟨middle, through, kept⟩ :=
        (counter_uses ssl maxBufferSize held long).run
      unfold encBufferMemory
      simp only
      rw [run_append, through]
      split
      · have counted :
            (encryptPayload ssl (source.take maxBufferSize)
              (counter ssl maxBufferSize
                state).state).state.cfg.keys.Held middle := by
          rw [encryptPayload_keys]
          exact held.kept (counter_pointers ssl maxBufferSize state) kept
        obtain ⟨final, rest, later⟩ :=
          inductionHypothesis (source.drop maxBufferSize) counted (by
            rw [encryptPayload_keys,
              (counter_pointers ssl maxBufferSize state).keyLength]
            exact long)
        exact ⟨final, rest, kept.trans later⟩
      · exact ⟨middle, rfl, kept⟩

/-- The chunks of `rdrand_get_bytes_aes_ctr` use the blocks of the keys. -/
theorem ctr_keeps
    (acquire : Nat → Nat → Acquired)
    (sizes : List Nat)
    (position : Nat)
    {state : AesState}
    (held : state.cfg.keys.Held memory)
    (long : evpAes128CtrLength ≤ state.cfg.keys.keyLength) :
    ∃ final,
      run (ctrMemory ssl acquire sizes position state) memory =
          some final ∧
        Kept memory final := by
  induction sizes generalizing position state memory with
  | nil =>
      exact ⟨memory, rfl, .refl memory⟩
  | cons size rest inductionHypothesis =>
      obtain ⟨middle, through, kept⟩ :=
        (counter_uses ssl size held long).run
      unfold ctrMemory
      simp only
      rw [run_append, through]
      split
      · exact ⟨middle, rfl, kept⟩
      · next bytes acquired =>
          split
          · have counted :
                (encryptPayload ssl bytes
                  (counter ssl size state).state).state.cfg.keys.Held
                    middle := by
              rw [encryptPayload_keys]
              exact held.kept (counter_pointers ssl size state) kept
            obtain ⟨final, rest, later⟩ :=
              inductionHypothesis (acquire size position).position
                counted (by
                  rw [encryptPayload_keys,
                    (counter_pointers ssl size state).keyLength]
                  exact long)
            exact ⟨final, rest, kept.trans later⟩
          · exact ⟨middle, rfl, kept⟩

end Uses

end RdRand
