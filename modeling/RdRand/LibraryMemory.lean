import RdRand.KeyMemorySafety

namespace RdRand

/-!
# The key memory over whole runs

From the state before any call on, no call of the library misuses a block,
as long as the encrypting functions are called while there are keys: exactly
if no keys are set that are shorter than the cipher reads.  Where keys are set
only while there are none, all that is allocated belongs to the current keys,
so that nothing is left after they are discarded.
-/

open MemoryBlocks

/-- What holds of the blocks between two calls. -/
structure MemoryHeld (state : AesState) (memory : Heap Block) : Prop where
  fresh :
    ∀ block : Block,
      (∀ call ∈ block.call, state.mallocCalls ≤ call) →
      memory block = .unused
  held :
    state.cfg.keys.keys.identity ≠ none →
    state.cfg.keys.Held memory
  apart :
    state.cfg.keys.keys.identity ≠ none →
    ∃ keyCall nonceCall,
      state.cfg.keys.keys.Apart state.cfg.keys.nonces keyCall nonceCall

/-- The keys are as long as the cipher reads. -/
def KeysLong (state : AesState) : Prop :=
  state.cfg.keys.keys.identity ≠ none →
  evpAes128CtrLength ≤ state.cfg.keys.keyLength

/-- All that is allocated belongs to the keys there are. -/
def NoLeak (state : AesState) (memory : Heap Block) : Prop :=
  ∀ block,
    (memory block).isLive = true →
    state.cfg.keys.keys.identity ≠ none ∧
      block ∈
        keyBlocks state.cfg.keys.keys state.cfg.keys.nonces
          state.cfg.keys.amount

/-- The blocks of the keys depend on where they are. -/
theorem keyBlocks_congr
    {before after : Keys}
    (pointers : Keys.PointersKept before after) :
    keyBlocks after.keys after.nonces after.amount =
      keyBlocks before.keys before.nonces before.amount := by
  unfold keyBlocks stringBlocks
  rw [KeyArray.block_congr pointers.keys,
    KeyArray.block_congr pointers.nonces, pointers.amount]
  simp only [KeyArray.string_congr pointers.keys,
    KeyArray.string_congr pointers.nonces]

section Kept

variable
  {state after : AesState}
  {memory final : Heap Block}

/-- A call that keeps the pointers and uses the blocks. -/
theorem MemoryHeld.kept
    (held : MemoryHeld state memory)
    (pointers : Keys.PointersKept state.cfg.keys after.cfg.keys)
    (mallocCalls : after.mallocCalls = state.mallocCalls)
    (kept : Kept memory final) :
    MemoryHeld after final where
  fresh block later := by
    rw [mallocCalls] at later
    have unused := held.fresh block later
    rw [kept.of_not_live (by rw [unused]; rfl), unused]
  held some := by
    rw [pointers.keys] at some
    exact (held.held some).kept pointers kept
  apart some := by
    rw [pointers.keys] at some
    obtain ⟨keyCall, nonceCall, apart⟩ := held.apart some
    exact
      ⟨keyCall, nonceCall, pointers.keys.trans apart.keys,
        pointers.nonces.trans apart.nonces, apart.different⟩

theorem KeysLong.kept
    (long : KeysLong state)
    (pointers : Keys.PointersKept state.cfg.keys after.cfg.keys) :
    KeysLong after := by
  intro some
  rw [pointers.keys] at some
  rw [pointers.keyLength]
  exact long some

theorem NoLeak.kept
    (noLeak : NoLeak state memory)
    (pointers : Keys.PointersKept state.cfg.keys after.cfg.keys)
    (kept : Kept memory final) :
    NoLeak after final := by
  intro block live
  rw [kept.isLive] at live
  rw [pointers.keys, keyBlocks_congr pointers]
  exact noLeak block live

end Kept

/-- Before any call. -/
theorem memoryHeld_start : MemoryHeld aesStart Heap.empty where
  fresh _ _ := rfl
  held some := absurd rfl some
  apart some := absurd rfl some

theorem keysLong_start : KeysLong aesStart :=
  fun some => absurd rfl some

theorem noLeak_start : NoLeak aesStart Heap.empty := by
  intro block live
  cases live

section Setting

variable
  {ssl : OpenSsl}
  (locks : MemoryLocks)
  {amount keyLength : Nat}
  {state : AesState}
  {memory : Heap Block}

/-- A successful `keys_allocate` makes keys. -/
theorem MemoryHeld.allocate
    (held : MemoryHeld state memory)
    (success : (keysAllocate ssl amount keyLength state).success = true) :
    ∃ middle,
      run (keysAllocateMemory ssl locks amount keyLength state) memory =
          some middle ∧
        MemoryHeld (keysAllocate ssl amount keyLength state).state
          middle ∧
        ((∀ block, (memory block).isLive = false) →
          NoLeak (keysAllocate ssl amount keyLength state).state
            middle) := by
  obtain ⟨middle, through, acted⟩ :=
    keysAllocate_run locks success held.fresh rfl rfl
  have apart := keysAllocate_apart success
  obtain ⟨someKeys, spec⟩ := keysAllocate_spec ssl success
  rw [spec] at acted apart ⊢
  refine ⟨middle, through, ?_, ?_⟩
  · exact
      { fresh := by
          intro block later
          have before :
              ∀ call ∈ block.call, state.mallocCalls ≤ call :=
            fun call member =>
              Nat.le_trans (Nat.le_add_right _ 2) (later call member)
          rw [acted.others block ?_]
          · exact held.fresh block before
          · intro member
            rcases apart.call_of_mem member with first | second
            · exact absurd (later _ first) (by simp)
            · exact absurd (later _ second) (by simp)
        held := fun _ =>
          { keyArray := ⟨acted.keyArray, fun index below =>
              acted.strings _
                (mem_stringBlocks.mpr ⟨index, below, .inl rfl⟩)⟩
            nonceArray := ⟨acted.nonceArray, fun index below =>
              acted.strings _
                (mem_stringBlocks.mpr ⟨index, below, .inr rfl⟩)⟩
            some := someKeys
            current := by
              refine ⟨?_, ?_, fun _ => Option.some_ne_none _⟩
              · rintro _ ⟨⟩
                exact someKeys
              · rintro _ ⟨⟩
                exact someKeys }
        apart := fun _ => ⟨_, _, apart⟩ }
  · intro idle block live
    refine ⟨Option.some_ne_none _, ?_⟩
    by_contra absent
    rw [acted.others block absent, idle block] at live
    cases live

/-- `keys_allocate` accepts powers of two only. -/
theorem keysAllocate_power
    (success : (keysAllocate ssl amount keyLength state).success = true) :
    isPowerOfTwo keyLength = true := by
  unfold keysAllocate at success
  split at success
  · cases success
  · next accepted =>
      rw [Bool.or_eq_true, not_or] at accepted
      simpa using accepted.1

/-- Copying the given strings into new keys changes nothing else. -/
theorem copied_pointers
    (keys nonces : List (List Byte))
    (length : Nat)
    (before : Keys) :
    Keys.PointersKept before
      { before with
        keys := copyKeys keys length before.keys
        nonces := copyKeys nonces (length / 2) before.nonces } where
  keys := rfl
  nonces := rfl
  amount := rfl
  keyLength := rfl
  current _ within := ⟨within.key, within.nonce, within.paired⟩

/-- The settings before the allocation leave the keys there were. -/
theorem resetKeys_pointers
    (keysType : KeysType)
    (nextCounter : Nat)
    (state : AesState) :
    Keys.PointersKept state.cfg.keys
      (resetKeys keysType nextCounter state).cfg.keys where
  keys := rfl
  nonces := rfl
  amount := rfl
  keyLength := rfl
  current _ within := ⟨nofun, within.nonce, fun some => absurd rfl some⟩

end Setting

/-- The call sets keys that are shorter than the cipher reads. -/
def KeysCall.Overruns : KeysCall → Prop
  | .setAesKeys amount keyLength _ _ => amount ≠ 0 ∧ keyLength = 8
  | .setAesRandomKey => False
  | .cleanAes => False

/-- The call sets keys, rather than to discard them. -/
def KeysCall.Sets : KeysCall → Prop
  | .setAesKeys .. => True
  | .setAesRandomKey => True
  | .cleanAes => False

/--
What a call that gets through leaves behind.  It leaks nothing, unless it sets
keys while there are others.
-/
structure MemoryStep
    (sets : Prop)
    (before after : AesState)
    (memory final : Heap Block) : Prop where
  held : MemoryHeld after final
  long : KeysLong after
  noLeak :
    (sets → before.cfg.keys.keys.identity = none) →
    NoLeak before memory →
    NoLeak after final

section Steps

variable
  {ssl : OpenSsl}
  {locks : MemoryLocks}
  {state after : AesState}
  {memory final : Heap Block}

/-- Without keys nothing is allocated that does not leak. -/
theorem NoLeak.idle
    (noLeak : NoLeak state memory)
    (none : state.cfg.keys.keys.identity = none)
    (block : Block) :
    (memory block).isLive = false := by
  rw [← Bool.not_eq_true]
  exact fun live => (noLeak block live).1 none

/-- A call that uses the blocks of the keys and leaves the keys. -/
theorem MemoryStep.kept
    (sets : Prop)
    (held : MemoryHeld state memory)
    (long : KeysLong state)
    (pointers : Keys.PointersKept state.cfg.keys after.cfg.keys)
    (mallocCalls : after.mallocCalls = state.mallocCalls)
    (kept : Kept memory final) :
    MemoryStep sets state after memory final where
  held := held.kept pointers mallocCalls kept
  long := long.kept pointers
  noLeak _ noLeak := noLeak.kept pointers kept

/-- New keys, and then what uses their blocks. -/
theorem MemoryStep.allocate
    {amount keyLength nextCounter : Nat}
    {keysType : KeysType}
    (held : MemoryHeld state memory)
    (success :
      (keysAllocate ssl amount keyLength
        (resetKeys keysType nextCounter state)).success = true)
    (fits : evpAes128CtrLength ≤ keyLength)
    {events : BlockEvents}
    (uses :
      ∀ middle,
        (keysAllocate ssl amount keyLength
          (resetKeys keysType nextCounter
            state)).state.cfg.keys.Held middle →
        Uses middle events)
    (pointers :
      Keys.PointersKept
        (keysAllocate ssl amount keyLength
          (resetKeys keysType nextCounter state)).state.cfg.keys
        after.cfg.keys)
    (handles :
      after.handles =
        (keysAllocate ssl amount keyLength
          (resetKeys keysType nextCounter state)).state.handles) :
    ∃ final,
      run
          (keysAllocateMemory ssl locks amount keyLength
              (resetKeys keysType nextCounter state) ++
            events)
          memory = some final ∧
        MemoryStep True state after memory final := by
  have reset :
      MemoryHeld (resetKeys keysType nextCounter state) memory :=
    held.kept (resetKeys_pointers keysType nextCounter state) rfl
      (.refl memory)
  obtain ⟨middle, through, allocated, unleaked⟩ :=
    reset.allocate locks success
  have spec := (keysAllocate_spec ssl success).2
  have some :
      (keysAllocate ssl amount keyLength
        (resetKeys keysType nextCounter
          state)).state.cfg.keys.keys.identity ≠ none := by
    rw [spec]
    exact Option.some_ne_none _
  have long :
      KeysLong
        (keysAllocate ssl amount keyLength
          (resetKeys keysType nextCounter state)).state := by
    intro _
    rw [spec]
    exact fits
  obtain ⟨final, later, kept⟩ :=
    (uses middle (allocated.held some)).run
  refine ⟨final, ?_, ?_⟩
  · rw [run_append, through]
    exact later
  · exact
      { held :=
          allocated.kept pointers (congrArg Handles.mallocCalls handles)
            kept
        long := long.kept pointers
        noLeak := fun fresh noLeak =>
          (unleaked (noLeak.idle (fresh trivial))).kept pointers kept }

/-- `rdrand_set_aes_keys` misuses no block. -/
theorem rdrandSetAesKeys_memory
    (malloc : ∀ call, ssl.mallocOk call = true)
    (held : MemoryHeld state memory)
    (long : KeysLong state)
    {amount keyLength : Nat}
    {keys nonces : List (List Byte)}
    (fits :
      ¬ (KeysCall.setAesKeys amount keyLength keys nonces).Overruns) :
    ∃ final,
      run (rdrandSetAesKeysMemory ssl locks amount keyLength state)
          memory = some final ∧
        MemoryStep True state
          (rdrandSetAesKeys ssl amount keyLength keys nonces state).state
          memory final := by
  have reset := resetKeys_pointers .keysGiven maxCounter state
  unfold rdrandSetAesKeysMemory rdrandSetAesKeys
  split
  · exact
      ⟨memory, rfl,
        .kept True held long (.refl _) rfl (.refl memory)⟩
  · next inRange =>
      simp only
      split
      · next success =>
          obtain ⟨amountSome, spec⟩ := keysAllocate_spec ssl success
          have long : evpAes128CtrLength ≤ keyLength := by
            have accepted :=
              (keyLength_passes_iff keyLength).mp
                ⟨inRange, keysAllocate_power success⟩
            rcases accepted with short | sixteen
            · exact
                absurd ⟨Nat.ne_of_gt amountSome, short⟩ fits
            · exact Nat.le_of_eq sixteen.symm
          have uses :
              ∀ middle,
                (keysAllocate ssl amount keyLength
                  (resetKeys .keysGiven maxCounter
                    state)).state.cfg.keys.Held middle →
                Uses middle
                  (copyKeysMemory amount keyLength
                      (keysAllocate ssl amount keyLength
                        (resetKeys .keysGiven maxCounter
                          state)).state.cfg.keys ++
                    keyToOpensslMemory
                      (keysAllocate ssl amount keyLength
                        (resetKeys .keysGiven maxCounter
                          state)).state.cfg.keys) := by
            intro middle allocated
            rw [spec] at allocated ⊢
            exact
              (copyKeys_uses allocated).append
                (keyToOpenssl_uses allocated long)
          refine
            MemoryStep.allocate held success long uses ?_
              (keyToOpenssl_handles ssl _)
          rw [keyToOpenssl_keys]
          exact copied_pointers keys nonces keyLength _
      · next refused =>
          obtain ⟨nothing, same⟩ :=
            keysAllocate_refused locks malloc
              (Bool.eq_false_of_not_eq_true refused)
          rw [nothing, same]
          exact
            ⟨memory, rfl,
              .kept True held long reset rfl (.refl memory)⟩

/-- `rdrand_set_aes_random_key` misuses no block. -/
theorem rdrandSetAesRandomKey_memory
    (malloc : ∀ call, ssl.mallocOk call = true)
    (held : MemoryHeld state memory)
    (long : KeysLong state) :
    ∃ final,
      run (rdrandSetAesRandomKeyMemory ssl locks state) memory =
          some final ∧
        MemoryStep True state (rdrandSetAesRandomKey ssl state).state
          memory final := by
  have reset := resetKeys_pointers .keysGenerated 0 state
  unfold rdrandSetAesRandomKeyMemory rdrandSetAesRandomKey
  simp only
  split
  · next success =>
      have spec := (keysAllocate_spec ssl success).2
      have defaultLong : evpAes128CtrLength ≤ defaultKeyLen :=
        Nat.le_refl _
      have uses :
          ∀ middle,
            (keysAllocate ssl 1 defaultKeyLen
              (resetKeys .keysGenerated 0
                state)).state.cfg.keys.Held middle →
            Uses middle
              (keyGenerateMemory ssl
                (keysAllocate ssl 1 defaultKeyLen
                  (resetKeys .keysGenerated 0 state)).state) := by
        intro middle allocated
        refine keyGenerate_uses ssl allocated ?_
        rw [spec]
        exact defaultLong
      exact
        MemoryStep.allocate held success defaultLong uses
          (keyGenerate_pointers ssl _) (keyGenerate_handles ssl _)
  · next refused =>
      obtain ⟨nothing, same⟩ :=
        keysAllocate_refused locks malloc
          (Bool.eq_false_of_not_eq_true refused)
      rw [nothing, same]
      exact
        ⟨memory, rfl, .kept True held long reset rfl (.refl memory)⟩

/-- After `rdrand_clean_aes` there are no keys. -/
theorem rdrandCleanAes_none (state : AesState) :
    (rdrandCleanAes state).cfg.keys.keys.identity = none :=
  (congrArg Handles.keys (rdrandCleanAes_handles state)).trans
    state.handles.cleaned_keys

theorem rdrandCleanAes_mallocCalls (state : AesState) :
    (rdrandCleanAes state).mallocCalls = state.mallocCalls :=
  (congrArg Handles.mallocCalls (rdrandCleanAes_handles state)).trans
    state.handles.cleaned_mallocCalls

/-- Where there are no keys afterwards, little is left to hold. -/
theorem MemoryStep.discarded
    (mallocCalls : after.mallocCalls = state.mallocCalls)
    (none : after.cfg.keys.keys.identity = none)
    (fresh :
      ∀ block : Block,
        (∀ call ∈ block.call, state.mallocCalls ≤ call) →
        final block = .unused)
    (idle :
      NoLeak state memory → ∀ block, (final block).isLive = false) :
    MemoryStep False state after memory final where
  held :=
    { fresh := by
        rw [mallocCalls]
        exact fresh
      held := fun some => absurd none some
      apart := fun some => absurd none some }
  long some := absurd none some
  noLeak _ noLeak block live := by
    rw [idle noLeak block] at live
    cases live

/-- `rdrand_clean_aes` misuses no block, and leaves none. -/
theorem rdrandCleanAes_memory
    (munlock : ∀ block, locks.munlockOk block = true)
    (held : MemoryHeld state memory) :
    ∃ final,
      run (keysFreeMemory locks state.cfg.keys) memory = some final ∧
        MemoryStep False state (rdrandCleanAes state) memory final := by
  by_cases some : state.cfg.keys.keys.identity = none
  · refine ⟨memory, ?_, ?_⟩
    · unfold keysFreeMemory
      rw [if_pos some]
      rfl
    · exact
        .discarded (rdrandCleanAes_mallocCalls state)
          (rdrandCleanAes_none state) held.fresh
          fun noLeak => noLeak.idle some
  · obtain ⟨keyCall, nonceCall, apart⟩ := held.apart some
    have keysHeld := held.held some
    obtain ⟨final, through, acted⟩ :=
      keysFree_run munlock apart keysHeld
    have freed :
        ∀ block ∈
            keyBlocks state.cfg.keys.keys state.cfg.keys.nonces
              state.cfg.keys.amount,
          final block = .released := by
      intro block member
      rcases List.mem_cons.mp member with rfl | member
      · exact acted.keyArray
      rcases List.mem_cons.mp member with rfl | member
      · exact acted.nonceArray
      · exact acted.strings block member
    refine ⟨final, through, ?_⟩
    refine
      .discarded (rdrandCleanAes_mallocCalls state)
        (rdrandCleanAes_none state) ?_ ?_
    · intro block later
      have unused := held.fresh block later
      rw [acted.others block ?_, unused]
      intro member
      have live := keysHeld.isLive member
      rw [unused] at live
      cases live
    · intro noLeak block
      by_cases member :
          block ∈
            keyBlocks state.cfg.keys.keys state.cfg.keys.nonces
              state.cfg.keys.amount
      · rw [freed block member]
        rfl
      · rw [acted.others block member, ← Bool.not_eq_true]
        exact fun live => member (noLeak block live).2

/-- With keys that are too short, the cipher reads beyond a string. -/
theorem rdrandSetAesKeys_overruns
    (malloc : ∀ call, ssl.mallocOk call = true)
    (held : MemoryHeld state memory)
    {amount : Nat}
    (some : amount ≠ 0) :
    run (rdrandSetAesKeysMemory ssl locks amount 8 state) memory =
      none := by
  have success :
      (keysAllocate ssl amount 8
        (resetKeys .keysGiven maxCounter state)).success = true := by
    have power : isPowerOfTwo 8 = true := by
      decide
    simp [keysAllocate, power, some, allocateArray, malloc]
  have reset :
      MemoryHeld (resetKeys .keysGiven maxCounter state) memory :=
    held.kept (resetKeys_pointers .keysGiven maxCounter state) rfl
      (.refl memory)
  obtain ⟨middle, through, allocated, _⟩ :=
    reset.allocate locks success
  have spec := (keysAllocate_spec ssl success).2
  have keysHeld := allocated.held (by
    rw [spec]
    exact Option.some_ne_none _)
  unfold rdrandSetAesKeysMemory
  rw [if_neg (by decide)]
  simp only
  rw [if_pos success, run_append, through, Option.bind_some]
  rw [spec] at keysHeld ⊢
  obtain ⟨copied, later, kept⟩ := (copyKeys_uses keysHeld).run
  rw [run_append, later, Option.bind_some]
  exact
    run_load_beyond
      (kept.allocated (keysHeld.keyArray.strings 0 keysHeld.some))
      (show 8 < evpAes128CtrLength by decide) _

/-- Encrypting keeps the pointers to the keys. -/
theorem AesReaches.pointers
    (reaches : AesReaches ssl state after) :
    Keys.PointersKept state.cfg.keys after.cfg.keys := by
  induction reaches with
  | start =>
      exact .refl _
  | counter _ _ inductionHypothesis =>
      exact inductionHypothesis.trans (counter_pointers ssl _ _)
  | payload _ input inductionHypothesis =>
      rw [encryptPayload_keys]
      exact inductionHypothesis

/-- The encrypting functions misuse no block, where there are keys. -/
theorem AesCall.memory_step
    (device : Device)
    (buffer : StackBuffer)
    (call : AesCall)
    {before : AesRun}
    (held : MemoryHeld before.state memory)
    (long : KeysLong before.state)
    (keyed : before.state.cfg.keys.keys.identity ≠ none) :
    ∃ final,
      run (call.memory ssl device buffer before) memory = some final ∧
        MemoryStep False before.state
          (runCall ssl device buffer before call).state memory final := by
  have reaches :
      AesReaches ssl before.state
        (runCalls ssl device buffer [call] before).state :=
    runCalls_reaches device buffer [call] before
  have uses :
      ∃ final,
        run (call.memory ssl device buffer before) memory =
            some final ∧
          Kept memory final := by
    cases call with
    | getBytesAesCtr count retryLimit =>
        exact ctr_keeps ssl _ _ _ (held.held keyed) (long keyed)
    | encBuffer source =>
        exact encBuffer_keeps ssl _ source (held.held keyed) (long keyed)
  obtain ⟨final, through, kept⟩ := uses
  exact
    ⟨final, through,
      .kept False held long reaches.pointers
        (congrArg Handles.mallocCalls reaches.handles) kept⟩

end Steps

section Runs

variable
  (ssl : OpenSsl)
  (locks : MemoryLocks)
  (device : Device)
  (buffer : StackBuffer)

/-- Every call meets a condition in the state in which it is made. -/
def Throughout
    (condition : AesRun → LibraryCall → Prop) :
    List LibraryCall → AesRun → Prop
  | [], _ => True
  | call :: rest, run =>
      condition run call ∧
        Throughout condition rest (call.perform ssl device buffer run)

/-- The encrypting functions are called while there are keys. -/
def LibraryCall.Keyed (run : AesRun) : LibraryCall → Prop
  | .keys _ => True
  | .aes _ => run.state.cfg.keys.keys.identity ≠ none

/-- Keys are set while there are none. -/
def LibraryCall.SetsFirst (run : AesRun) : LibraryCall → Prop
  | .keys call =>
      call.Sets → run.state.cfg.keys.keys.identity = none
  | .aes _ => True

/-- The call sets keys that are shorter than the cipher reads. -/
def LibraryCall.Overruns : LibraryCall → Prop
  | .keys call => call.Overruns
  | .aes _ => False

instance decidableThroughout
    (condition : AesRun → LibraryCall → Prop)
    [∀ run call, Decidable (condition run call)] :
    ∀ calls run,
      Decidable (Throughout ssl device buffer condition calls run)
  | [], _ => inferInstanceAs (Decidable True)
  | call :: rest, run =>
      have := decidableThroughout condition rest
        (call.perform ssl device buffer run)
      inferInstanceAs (Decidable (_ ∧ _))

instance (run : AesRun) :
    ∀ call : LibraryCall, Decidable (call.Keyed run)
  | .keys _ => inferInstanceAs (Decidable True)
  | .aes _ => inferInstanceAs (Decidable (_ ≠ none))

instance : ∀ call : KeysCall, Decidable call.Sets
  | .setAesKeys .. => inferInstanceAs (Decidable True)
  | .setAesRandomKey => inferInstanceAs (Decidable True)
  | .cleanAes => inferInstanceAs (Decidable False)

instance (run : AesRun) :
    ∀ call : LibraryCall, Decidable (call.SetsFirst run)
  | .keys _ => inferInstanceAs (Decidable (_ → _ = none))
  | .aes _ => inferInstanceAs (Decidable True)

instance : ∀ call : KeysCall, Decidable call.Overruns
  | .setAesKeys .. => inferInstanceAs (Decidable (_ ≠ _ ∧ _ = 8))
  | .setAesRandomKey => inferInstanceAs (Decidable False)
  | .cleanAes => inferInstanceAs (Decidable False)

instance : ∀ call : LibraryCall, Decidable call.Overruns
  | .keys _ => inferInstanceAs (Decidable (KeysCall.Overruns _))
  | .aes _ => inferInstanceAs (Decidable False)

end Runs

section Safety

variable
  {ssl : OpenSsl}
  {locks : MemoryLocks}
  {device : Device}
  {buffer : StackBuffer}
  (malloc : ∀ call, ssl.mallocOk call = true)
  (munlock : ∀ block, locks.munlockOk block = true)

include malloc munlock

/-- A call misuses no block unless it sets keys that are too short. -/
theorem LibraryCall.memory_step
    {call : LibraryCall}
    {before : AesRun}
    {memory : Heap Block}
    (held : MemoryHeld before.state memory)
    (long : KeysLong before.state)
    (keyed : call.Keyed before)
    (fits : ¬ call.Overruns) :
    ∃ final,
      run (call.memory ssl locks device buffer before) memory =
          some final ∧
        MemoryHeld (call.perform ssl device buffer before).state
          final ∧
        KeysLong (call.perform ssl device buffer before).state ∧
        (call.SetsFirst before →
          NoLeak before.state memory →
          NoLeak (call.perform ssl device buffer before).state
            final) := by
  cases call with
  | aes call =>
      obtain ⟨final, through, step⟩ :=
        call.memory_step device buffer held long keyed
      exact
        ⟨final, through, step.held, step.long,
          fun _ => step.noLeak nofun⟩
  | keys call =>
      cases call with
      | setAesKeys amount keyLength keys nonces =>
          obtain ⟨final, through, step⟩ :=
            rdrandSetAesKeys_memory malloc held long fits
          exact
            ⟨final, through, step.held, step.long,
              fun first => step.noLeak first⟩
      | setAesRandomKey =>
          obtain ⟨final, through, step⟩ :=
            rdrandSetAesRandomKey_memory malloc held long
          exact
            ⟨final, through, step.held, step.long,
              fun first => step.noLeak first⟩
      | cleanAes =>
          obtain ⟨final, through, step⟩ :=
            rdrandCleanAes_memory munlock held
          exact
            ⟨final, through, step.held, step.long,
              fun _ => step.noLeak nofun⟩

/-- Calls misuse no block unless they set keys that are too short. -/
theorem libraryMemory_run
    {calls : List LibraryCall}
    {before : AesRun}
    {memory : Heap Block}
    (held : MemoryHeld before.state memory)
    (long : KeysLong before.state)
    (keyed :
      Throughout ssl device buffer LibraryCall.Keyed calls before)
    (fits : ∀ call ∈ calls, ¬ call.Overruns) :
    ∃ final,
      run (libraryMemory ssl locks device buffer calls before) memory =
          some final ∧
        MemoryHeld (libraryRun ssl device buffer calls before).state
          final ∧
        (Throughout ssl device buffer LibraryCall.SetsFirst calls
            before →
          NoLeak before.state memory →
          NoLeak (libraryRun ssl device buffer calls before).state
            final) := by
  induction calls generalizing before memory with
  | nil =>
      exact ⟨memory, rfl, held, fun _ noLeak => noLeak⟩
  | cons call rest inductionHypothesis =>
      obtain ⟨callKeyed, restKeyed⟩ := keyed
      obtain ⟨middle, through, middleHeld, middleLong, middleTidy⟩ :=
        LibraryCall.memory_step malloc munlock held long callKeyed
          (fits call List.mem_cons_self)
      obtain ⟨final, later, finalHeld, finalTidy⟩ :=
        inductionHypothesis middleHeld middleLong restKeyed
          fun other member => fits other (List.mem_cons_of_mem call member)
      refine ⟨final, ?_, finalHeld, ?_⟩
      · rw [libraryMemory, run_append, through]
        exact later
      · rintro ⟨first, others⟩ noLeak
        exact finalTidy others (middleTidy first noLeak)

/-- A call with keys that are too short makes any run misuse a block. -/
theorem libraryMemory_overruns
    {calls : List LibraryCall}
    {before : AesRun}
    {memory : Heap Block}
    (held : MemoryHeld before.state memory)
    (long : KeysLong before.state)
    (keyed :
      Throughout ssl device buffer LibraryCall.Keyed calls before)
    {call : LibraryCall}
    (member : call ∈ calls)
    (overruns : call.Overruns) :
    run (libraryMemory ssl locks device buffer calls before) memory =
      none := by
  induction calls generalizing before memory with
  | nil =>
      cases member
  | cons first rest inductionHypothesis =>
      obtain ⟨firstKeyed, restKeyed⟩ := keyed
      rw [libraryMemory, run_append]
      by_cases here : first.Overruns
      · have stuck :
            run (first.memory ssl locks device buffer before) memory =
              none := by
          cases first with
          | aes _ =>
              exact here.elim
          | keys call =>
              cases call with
              | setAesKeys amount keyLength keys nonces =>
                  obtain ⟨some, rfl⟩ := here
                  exact rdrandSetAesKeys_overruns malloc held some
              | setAesRandomKey =>
                  exact here.elim
              | cleanAes =>
                  exact here.elim
        rw [stuck]
        rfl
      · have later : call ∈ rest := by
          rcases List.mem_cons.mp member with rfl | later
          · exact absurd overruns here
          · exact later
        obtain ⟨middle, through, middleHeld, middleLong, _⟩ :=
          LibraryCall.memory_step malloc munlock held long firstKeyed
            here
        rw [through]
        exact inductionHypothesis middleHeld middleLong restKeyed later

end Safety

/-- The library before any call. -/
def libraryStart : AesRun where
  position := 0
  state := aesStart

/--
Where `malloc` and `munlock` succeed and the encrypting functions are called
while there are keys, a sequence of calls misuses no block of the key memory
exactly if none of them sets keys that are shorter than the cipher reads.
-/
theorem libraryMemory_safe_iff
    {ssl : OpenSsl}
    {locks : MemoryLocks}
    (malloc : ∀ call, ssl.mallocOk call = true)
    (munlock : ∀ block, locks.munlockOk block = true)
    {device : Device}
    {buffer : StackBuffer}
    {calls : List LibraryCall}
    (keyed :
      Throughout ssl device buffer LibraryCall.Keyed calls
        libraryStart) :
    (∃ final,
      run (libraryMemory ssl locks device buffer calls libraryStart)
        Heap.empty = some final) ↔
      ∀ call ∈ calls, ¬ call.Overruns := by
  constructor
  · rintro ⟨final, through⟩ call member overruns
    rw [libraryMemory_overruns malloc munlock memoryHeld_start
      keysLong_start keyed member overruns] at through
    cases through
  · intro fits
    obtain ⟨final, through, _⟩ :=
      libraryMemory_run malloc munlock memoryHeld_start keysLong_start
        keyed fits
    exact ⟨final, through⟩

/--
Where keys are set only while there are none, no block is left allocated in
the end but those of the keys there are; they are none after
`rdrand_clean_aes`.
-/
theorem libraryMemory_noLeak
    {ssl : OpenSsl}
    {locks : MemoryLocks}
    (malloc : ∀ call, ssl.mallocOk call = true)
    (munlock : ∀ block, locks.munlockOk block = true)
    {device : Device}
    {buffer : StackBuffer}
    {calls : List LibraryCall}
    (keyed :
      Throughout ssl device buffer LibraryCall.Keyed calls libraryStart)
    (fits : ∀ call ∈ calls, ¬ call.Overruns)
    (first :
      Throughout ssl device buffer LibraryCall.SetsFirst calls
        libraryStart) :
    ∃ final,
      run (libraryMemory ssl locks device buffer calls libraryStart)
          Heap.empty = some final ∧
        NoLeak (libraryRun ssl device buffer calls libraryStart).state
          final := by
  obtain ⟨final, through, _, tidy⟩ :=
    libraryMemory_run malloc munlock memoryHeld_start keysLong_start
      keyed fits
  exact ⟨final, through, tidy first noLeak_start⟩

/-- A system that locks blocks of up to 16 KiB. -/
def MemoryLocks.sample : MemoryLocks where
  limit := some 65536
  mlockOk := fun _ => true
  munlockOk := fun _ => true

/-- Two keys that are set, used and discarded, and then a random one. -/
def sampleCalls : List LibraryCall :=
  [.keys
      (.setAesKeys 2 16 [List.replicate 16 1, List.replicate 16 2]
        [List.replicate 8 3, List.replicate 8 4]),
    .aes (.encBuffer (List.replicate 20 7)), .keys .cleanAes,
    .keys .setAesRandomKey, .aes (.getBytesAesCtr 20 10),
    .keys .cleanAes]

theorem libraryMemory_safe_iff_sample :
    (∃ final,
      run
          (libraryMemory .sample .sample .counting .zeroed sampleCalls
            libraryStart)
          Heap.empty = some final) ↔
      ∀ call ∈ sampleCalls, ¬ call.Overruns :=
  libraryMemory_safe_iff (fun _ => rfl) (fun _ => rfl) (by decide)

theorem libraryMemory_noLeak_sample :
    ∃ final,
      run
            (libraryMemory .sample .sample .counting .zeroed sampleCalls
              libraryStart)
            Heap.empty = some final ∧
        NoLeak
          (libraryRun .sample .counting .zeroed sampleCalls
            libraryStart).state
          final :=
  libraryMemory_noLeak (fun _ => rfl) (fun _ => rfl) (by decide)
    (by decide) (by decide)

end RdRand
