import Mathlib.Data.List.Nodup
import RdRand.KeyBlocks

namespace RdRand

/-!
# No misuse of the key memory

Whatever calls are made of the library, it allocates every block once, stays
within its size, overwrites it with zeros and unlocks it before it frees it,
and never touches it afterwards.  The encrypting functions must be called
while there are keys, and the keys must have the length the cipher reads.
-/

open MemoryBlocks

section Strings

variable
  {keys nonces : KeyArray}
  {amount : Nat}

theorem mem_stringBlocks {block : Block} :
    block ∈ stringBlocks keys nonces amount ↔
      ∃ index < amount,
        block = keys.string index ∨ block = nonces.string index := by
  simp [stringBlocks]

/-- The arrays are in different blocks. -/
structure KeyArray.Apart
    (keys nonces : KeyArray)
    (keyCall nonceCall : Nat) : Prop where
  keys : keys.identity = some keyCall
  nonces : nonces.identity = some nonceCall
  different : keyCall ≠ nonceCall

namespace KeyArray.Apart

variable
  {keyCall nonceCall : Nat}
  (apart : keys.Apart nonces keyCall nonceCall)

include apart

theorem blocks :
    keys.block = .array keyCall ∧ nonces.block = .array nonceCall := by
  unfold block
  rw [apart.keys, apart.nonces]
  exact ⟨rfl, rfl⟩

theorem strings (index : Nat) :
    keys.string index = .string keyCall index ∧
      nonces.string index = .string nonceCall index := by
  unfold string
  rw [apart.keys, apart.nonces]
  exact ⟨rfl, rfl⟩

/-- No two of the strings are in one block. -/
theorem stringBlocks_nodup (amount : Nat) :
    (stringBlocks keys nonces amount).Nodup := by
  have different := apart.different
  unfold stringBlocks
  simp only [apart.strings]
  refine List.nodup_flatMap.mpr ⟨?_, ?_⟩
  · intro index _
    simp [different]
  · refine List.nodup_range.pairwise_of_forall_ne ?_
    intro first _ second _ distinct
    simp [List.disjoint_left, distinct, different, Ne.symm different]

/-- An array is in none of the blocks of the strings. -/
theorem array_not_mem (amount call : Nat) :
    .array call ∉ stringBlocks keys nonces amount := by
  intro member
  obtain ⟨index, _, inKeys | inNonces⟩ := mem_stringBlocks.mp member
  · rw [(apart.strings index).1] at inKeys
    cases inKeys
  · rw [(apart.strings index).2] at inNonces
    cases inNonces

end KeyArray.Apart

/-- The blocks of both arrays and of their strings. -/
def keyBlocks (keys nonces : KeyArray) (amount : Nat) : List Block :=
  keys.block :: nonces.block :: stringBlocks keys nonces amount

/-- The blocks go back to the calls that made the arrays. -/
theorem KeyArray.Apart.call_of_mem
    {keyCall nonceCall : Nat}
    (apart : keys.Apart nonces keyCall nonceCall)
    {block : Block}
    (member : block ∈ keyBlocks keys nonces amount) :
    block.call = some keyCall ∨ block.call = some nonceCall := by
  simp only [keyBlocks, apart.blocks, List.mem_cons] at member
  rcases member with rfl | rfl | member
  · exact .inl rfl
  · exact .inr rfl
  · obtain ⟨index, _, rfl | rfl⟩ := mem_stringBlocks.mp member
    · rw [(apart.strings index).1]
      exact .inl rfl
    · rw [(apart.strings index).2]
      exact .inr rfl

/-- The blocks of keys that are held are allocated. -/
theorem Keys.Held.isLive
    {keys : Keys}
    {memory : Heap Block}
    (held : keys.Held memory)
    {block : Block}
    (member : block ∈ keyBlocks keys.keys keys.nonces keys.amount) :
    (memory block).isLive = true := by
  rcases List.mem_cons.mp member with rfl | member
  · exact held.keyArray.pointers.isLive
  rcases List.mem_cons.mp member with rfl | member
  · exact held.nonceArray.pointers.isLive
  · obtain ⟨index, below, rfl | rfl⟩ := mem_stringBlocks.mp member
    · exact (held.keyArray.strings index below).isLive
    · exact (held.nonceArray.strings index below).isLive

/-- What some events do to the arrays, to the strings and to nothing else. -/
structure ActOn
    (keys nonces : KeyArray)
    (amount : Nat)
    (onArray onString : Block → List Action)
    (events : BlockEvents) : Prop where
  keyArray : actionsOn keys.block events = onArray keys.block
  nonceArray : actionsOn nonces.block events = onArray nonces.block
  strings :
    ∀ block ∈ stringBlocks keys nonces amount,
      actionsOn block events = onString block
  others :
    ∀ block ∉ keyBlocks keys nonces amount,
      actionsOn block events = []

/-- What such events leave behind. -/
structure ActedOn
    (keys nonces : KeyArray)
    (amount : Nat)
    (Array String : Status → Prop)
    (memory final : Heap Block) : Prop where
  keyArray : Array (final keys.block)
  nonceArray : Array (final nonces.block)
  strings :
    ∀ block ∈ stringBlocks keys nonces amount, String (final block)
  others :
    ∀ block ∉ keyBlocks keys nonces amount, final block = memory block

/-- Where each array and each string gets through, the run does. -/
theorem ActOn.run
    {onArray onString : Block → List Action}
    {events : BlockEvents}
    (acts : ActOn keys nonces amount onArray onString events)
    {memory : Heap Block}
    {Array String : Status → Prop}
    (arrays :
      ∀ block ∈ [keys.block, nonces.block],
        ∃ after,
          history (onArray block) (memory block) = some after ∧
            Array after)
    (strings :
      ∀ block ∈ stringBlocks keys nonces amount,
        ∃ after,
          history (onString block) (memory block) = some after ∧
            String after) :
    ∃ final,
      run events memory = some final ∧
        ActedOn keys nonces amount Array String memory final := by
  obtain ⟨keysAfter, keysDone, keysArray⟩ :=
    arrays keys.block List.mem_cons_self
  obtain ⟨noncesAfter, noncesDone, noncesArray⟩ :=
    arrays nonces.block (by simp)
  rw [← acts.keyArray] at keysDone
  rw [← acts.nonceArray] at noncesDone
  have stringsDone :
      ∀ block ∈ stringBlocks keys nonces amount,
        ∃ after,
          history (actionsOn block events) (memory block) =
              some after ∧
            String after := by
    intro block member
    rw [acts.strings block member]
    exact strings block member
  have othersDone :
      ∀ block ∉ keyBlocks keys nonces amount,
        history (actionsOn block events) (memory block) =
          some (memory block) := by
    intro block absent
    rw [acts.others block absent]
    rfl
  have each :
      ∀ block,
        ∃ status,
          history (actionsOn block events) (memory block) =
            some status := by
    intro block
    by_cases member : block ∈ keyBlocks keys nonces amount
    · rcases List.mem_cons.mp member with rfl | member
      · exact ⟨_, keysDone⟩
      rcases List.mem_cons.mp member with rfl | member
      · exact ⟨_, noncesDone⟩
      · obtain ⟨after, done, _⟩ := stringsDone block member
        exact ⟨after, done⟩
    · exact ⟨_, othersDone block member⟩
  choose final through using each
  have result :
      ∀ {block status},
        history (actionsOn block events) (memory block) =
            some status →
          final block = status := by
    intro block status done
    rw [through block] at done
    exact Option.some.inj done
  refine ⟨final, (run_eq_some_iff _ _ _).mpr through, ?_⟩
  exact
    { keyArray := by
        rw [result keysDone]
        exact keysArray
      nonceArray := by
        rw [result noncesDone]
        exact noncesArray
      strings := by
        intro block member
        obtain ⟨after, done, string⟩ := stringsDone block member
        rw [result done]
        exact string
      others := fun block absent => result (othersDone block absent) }

end Strings

section Allocating

variable
  {ssl : OpenSsl}
  (locks : MemoryLocks)
  {amount keyLength : Nat}
  {state : AesState}
  {memory : Heap Block}

/-- Locking keeps a block allocated. -/
theorem keysMemLock_history
    (block : Block)
    (len : Nat)
    {size : Nat}
    {status : Status}
    (allocated : status.Allocated size) :
    ∃ after,
      history (keysMemLock locks block len).actions status =
          some after ∧
        after.Allocated size := by
  obtain ⟨secret, locked, within, rfl⟩ := allocated
  unfold keysMemLock
  split
  · exact ⟨_, rfl, secret, locked, within, rfl⟩
  · simp only
    split
    · split
      · exact ⟨_, rfl, secret, true, within, rfl⟩
      · exact ⟨_, rfl, secret, locked, within, rfl⟩
    · exact ⟨_, rfl, secret, locked, within, rfl⟩

/-- A block is allocated and locked. -/
theorem history_allocate_lock
    (block : Block)
    (size len : Nat) :
    ∃ after,
      history
            (.allocate size :: (keysMemLock locks block len).actions)
            .unused =
          some after ∧
        after.Allocated size :=
  keysMemLock_history locks block len
    ⟨0, false, Nat.zero_le size, rfl⟩

/-- A string is allocated, cleared and locked. -/
theorem history_allocateString
    (block : Block)
    (size : Nat) :
    ∃ after,
      history
            ([.allocate size, .clear size] ++
              (keysMemLock locks block size).actions)
            .unused =
          some after ∧
        after.Allocated size := by
  obtain ⟨after, done, allocated⟩ :=
    keysMemLock_history locks block size
      (⟨0, false, Nat.zero_le size, rfl⟩ :
        (Status.live size 0 false).Allocated size)
  refine ⟨after, ?_, allocated⟩
  simpa [history, Action.perform] using done

/-- What a successful `keys_allocate` does, array by array. -/
theorem keysAllocateMemory_eq
    (success : (keysAllocate ssl amount keyLength state).success = true)
    {keys nonces : KeyArray}
    (keysArray :
      (keysAllocate ssl amount keyLength state).state.cfg.keys.keys =
        keys)
    (noncesArray :
      (keysAllocate ssl amount keyLength state).state.cfg.keys.nonces =
        nonces) :
    keysAllocateMemory ssl locks amount keyLength state =
      on keys.block [.allocate (pointerSize * amount)] ++
        on nonces.block [.allocate (pointerSize * amount)] ++
        on keys.block
          (keysMemLock locks keys.block (pointerSize * amount)).actions ++
        on nonces.block
          (keysMemLock locks nonces.block
            (pointerSize * amount)).actions ++
        (stringBlocks keys nonces amount).flatMap
          (allocateString locks keyLength) := by
  subst keysArray noncesArray
  unfold keysAllocate at success ⊢
  unfold keysAllocateMemory
  split at success
  · cases success
  · next rejected =>
      rw [if_neg rejected, if_neg rejected]
      simp only at success ⊢
      split at success
      · cases success
      · next allocated =>
          rw [if_neg allocated, if_neg allocated]
          have both := not_or.mp allocated
          simp only [KeyArray.mallocMemory, if_neg both.1,
            if_neg both.2]

/-- The arrays that a successful `keys_allocate` makes. -/
theorem keysAllocate_apart
    (success : (keysAllocate ssl amount keyLength state).success = true) :
    (keysAllocate ssl amount keyLength state).state.cfg.keys.keys.Apart
      (keysAllocate ssl amount keyLength state).state.cfg.keys.nonces
      state.mallocCalls (state.mallocCalls + 1) := by
  rw [(keysAllocate_spec ssl success).2]
  exact ⟨rfl, rfl, Nat.ne_of_lt (Nat.lt_succ_self _)⟩

/-- What `keys_allocate` does to each block. -/
theorem keysAllocate_actOn
    {keys nonces : KeyArray}
    {keyCall nonceCall : Nat}
    (apart : keys.Apart nonces keyCall nonceCall) :
    ActOn keys nonces amount
      (fun block =>
        .allocate (pointerSize * amount) ::
          (keysMemLock locks block (pointerSize * amount)).actions)
      (fun block =>
        [.allocate keyLength, .clear keyLength] ++
          (keysMemLock locks block keyLength).actions)
      (on keys.block [.allocate (pointerSize * amount)] ++
        on nonces.block [.allocate (pointerSize * amount)] ++
        on keys.block
          (keysMemLock locks keys.block (pointerSize * amount)).actions ++
        on nonces.block
          (keysMemLock locks nonces.block
            (pointerSize * amount)).actions ++
        (stringBlocks keys nonces amount).flatMap
          (allocateString locks keyLength)) := by
  have nodup := apart.stringBlocks_nodup amount
  have different := apart.different
  have keysOut := apart.array_not_mem amount keyCall
  have noncesOut := apart.array_not_mem amount nonceCall
  unfold allocateString
  refine ⟨?_, ?_, ?_, ?_⟩
  · simp [actionsOn_flatMap_on _ _ nodup, apart.blocks, different.symm,
      keysOut]
  · simp [actionsOn_flatMap_on _ _ nodup, apart.blocks, different,
      noncesOut]
  · intro block member
    have notKeys : ¬ Block.array keyCall = block :=
      fun same => keysOut (same ▸ member)
    have notNonces : ¬ Block.array nonceCall = block :=
      fun same => noncesOut (same ▸ member)
    simp [actionsOn_flatMap_on _ _ nodup, apart.blocks, member, notKeys,
      notNonces]
  · intro block absent
    simp only [keyBlocks, apart.blocks, List.mem_cons, not_or] at absent
    obtain ⟨notKeys, notNonces, notString⟩ := absent
    simp [actionsOn_flatMap_on _ _ nodup, apart.blocks,
      Ne.symm notKeys, Ne.symm notNonces, notString]

/-- A successful `keys_allocate` makes its blocks, and no others. -/
theorem keysAllocate_run
    (success : (keysAllocate ssl amount keyLength state).success = true)
    (fresh :
      ∀ block : Block,
        (∀ call ∈ block.call, state.mallocCalls ≤ call) →
        memory block = .unused)
    {keys nonces : KeyArray}
    (keysArray :
      (keysAllocate ssl amount keyLength state).state.cfg.keys.keys =
        keys)
    (noncesArray :
      (keysAllocate ssl amount keyLength state).state.cfg.keys.nonces =
        nonces) :
    ∃ final,
      run (keysAllocateMemory ssl locks amount keyLength state) memory =
          some final ∧
        ActedOn keys nonces amount
          (Status.Allocated (pointerSize * amount))
          (Status.Allocated keyLength) memory final := by
  have apart := keysAllocate_apart success
  rw [keysArray, noncesArray] at apart
  rw [keysAllocateMemory_eq locks success keysArray noncesArray]
  have atFirst : ∀ call ∈ some state.mallocCalls, state.mallocCalls ≤ call := by
    rintro _ ⟨⟩
    exact Nat.le_refl _
  have atSecond :
      ∀ call ∈ some (state.mallocCalls + 1),
        state.mallocCalls ≤ call := by
    rintro _ ⟨⟩
    exact Nat.le_succ _
  refine (keysAllocate_actOn locks apart).run ?_ ?_
  · intro block member
    have unused : memory block = .unused := by
      simp only [apart.blocks, List.mem_cons, List.not_mem_nil,
        or_false] at member
      rcases member with rfl | rfl
      · exact fresh _ atFirst
      · exact fresh _ atSecond
    rw [unused]
    exact history_allocate_lock locks block _ _
  · intro block member
    have unused : memory block = .unused := by
      obtain ⟨index, _, rfl | rfl⟩ := mem_stringBlocks.mp member
      · rw [(apart.strings index).1]
        exact fresh _ atFirst
      · rw [(apart.strings index).2]
        exact fresh _ atSecond
    rw [unused]
    exact history_allocateString locks block keyLength

/-- Where `malloc` succeeds, a refused `keys_allocate` does nothing. -/
theorem keysAllocate_refused
    (malloc : ∀ call, ssl.mallocOk call = true)
    (refused :
      (keysAllocate ssl amount keyLength state).success = false) :
    keysAllocateMemory ssl locks amount keyLength state = [] ∧
      (keysAllocate ssl amount keyLength state).state = state := by
  unfold keysAllocate at refused ⊢
  unfold keysAllocateMemory
  split at refused
  · next rejected =>
      rw [if_pos rejected, if_pos rejected]
      exact ⟨rfl, rfl⟩
  · simp [allocateArray, malloc] at refused

end Allocating

section Freeing

variable
  {locks : MemoryLocks}
  (munlock : ∀ block, locks.munlockOk block = true)
  {keys : Keys}
  {keyCall nonceCall : Nat}

include munlock

/-- What `keys_free` does to each block. -/
theorem keysFree_actOn
    (apart : keys.keys.Apart keys.nonces keyCall nonceCall) :
    ActOn keys.keys keys.nonces keys.amount
      (fun _ =>
        [.clear (pointerSize * keys.amount),
          .clear (pointerSize * keys.amount), .unlock, .release])
      (fun _ =>
        [.clear keys.keyLength, .clear keys.keyLength, .unlock, .release])
      (keysFreeMemory locks keys) := by
  have nodup := apart.stringBlocks_nodup keys.amount
  have different := apart.different
  have keysOut := apart.array_not_mem keys.amount keyCall
  have noncesOut := apart.array_not_mem keys.amount nonceCall
  unfold keysFreeMemory
  rw [if_neg (by rw [apart.keys]; exact Option.some_ne_none _)]
  have free :
      freeString locks keys.keyLength =
        fun block =>
          on block
            [.clear keys.keyLength, .clear keys.keyLength, .unlock,
              .release] := by
    funext block
    simp only [freeString, keysMemUnlock, munlock, if_true]
    rfl
  simp only [free, keysMemUnlock, munlock, if_true]
  refine ⟨?_, ?_, ?_, ?_⟩
  · simp [actionsOn_flatMap_on _ _ nodup, apart.blocks, different.symm,
      keysOut]
  · simp [actionsOn_flatMap_on _ _ nodup, apart.blocks, different,
      noncesOut]
  · intro block member
    have notKeys : ¬ Block.array keyCall = block :=
      fun same => keysOut (same ▸ member)
    have notNonces : ¬ Block.array nonceCall = block :=
      fun same => noncesOut (same ▸ member)
    simp [actionsOn_flatMap_on _ _ nodup, apart.blocks, member, notKeys,
      notNonces]
  · intro block absent
    simp only [keyBlocks, apart.blocks, List.mem_cons, not_or] at absent
    obtain ⟨notKeys, notNonces, notString⟩ := absent
    simp [actionsOn_flatMap_on _ _ nodup, apart.blocks,
      Ne.symm notKeys, Ne.symm notNonces, notString]

/-- `keys_free` frees all blocks of the keys, and no others. -/
theorem keysFree_run
    (apart : keys.keys.Apart keys.nonces keyCall nonceCall)
    {memory : Heap Block}
    (held : keys.Held memory) :
    ∃ final,
      run (keysFreeMemory locks keys) memory = some final ∧
        ActedOn keys.keys keys.nonces keys.amount
          (· = .released) (· = .released) memory final := by
  refine (keysFree_actOn munlock apart).run ?_ ?_
  · intro block member
    have allocated :
        (memory block).Allocated (pointerSize * keys.amount) := by
      simp only [List.mem_cons, List.not_mem_nil, or_false] at member
      rcases member with rfl | rfl
      · exact held.keyArray.pointers
      · exact held.nonceArray.pointers
    exact ⟨_, history_free allocated, rfl⟩
  · intro block member
    have allocated : (memory block).Allocated keys.keyLength := by
      obtain ⟨index, below, rfl | rfl⟩ := mem_stringBlocks.mp member
      · exact held.keyArray.strings index below
      · exact held.nonceArray.strings index below
    exact ⟨_, history_free allocated, rfl⟩

end Freeing

end RdRand
