import RdRand.DeviceWords

namespace RdRand

/-!
# The parallel region

The bodies of one pass run in any order.  What a region does is derived from
one body at a time: a generating body fills its own slice of `gen_current`,
the encrypting body reads `gen_previous` and writes `buf`, and the counted
words reach the size of the buffer only if every slice is filled.
-/

section Region

variable
  {Aes : Type}
  (env : Environment)
  (encBuffer : EncBuffer Aes)
  (state : ChunkState Aes)

/-- The fill of a slice is sound for the slice, whatever the chunk size. -/
theorem sliceFill_sound (i position : Nat) :
    (sliceFill env state i position).Sound env.device position
      (8 * (i * state.config.chunkSize)) 1
      (8 * state.config.chunkSize) := by
  have le : state.config.chunkSize * 8 % uintModulus ≤
      8 * state.config.chunkSize := by
    have bound :=
      Nat.mod_le (state.config.chunkSize * 8) uintModulus
    omega
  exact
    (generateWithMetod_sound env.device state.config _
      (Nat.mod_lt _ (by decide)) retryLimit position).enlarge le

/-- The fill of a slice stores whole words. -/
theorem sliceFill_aligned (i position : Nat) :
    (sliceFill env state i position).Aligned := by
  have modulus : 8 ∣ uintModulus := by
    decide
  apply generateWithMetod_aligned
  · omega
  · rw [Nat.mod_mod_of_dvd _ modulus]
    exact Nat.mul_mod_left _ 8
  · exact Nat.mod_lt _ (by decide)

/-- The words a generating body counts fit its slice. -/
theorem sliceFill_words_le (i position : Nat) :
    (sliceFill env state i position).generated / 8 ≤
      state.config.chunkSize := by
  have bounded := (sliceFill_sound env state i position).bounded
  omega

/-- A body that counts a whole slice has filled it. -/
theorem sliceFill_complete
    {i position : Nat}
    (counted :
      state.config.chunkSize ≤
        (sliceFill env state i position).generated / 8) :
    (sliceFill env state i position).generated =
      8 * state.config.chunkSize := by
  have bounded := (sliceFill_sound env state i position).bounded
  omega

/-- A region only moves on along the device. -/
theorem parallelBody_advances
    (region : Region Aes)
    (i : Nat) :
    region.position ≤
      (parallelBody env encBuffer state region i).position := by
  unfold parallelBody
  split
  · split
    · exact (sliceFill_sound env state i region.position).advances
    · exact Nat.le_refl _
  · split
    · exact Nat.le_refl _
    · exact Nat.le_refl _

/-- Words from the device in `gen_current` survive every body. -/
theorem parallelBody_keeps
    {region : Region Aes}
    {i since index : Nat}
    (separate :
      i < state.config.threads ∨ state.genCurrent ≠ .buf)
    (le : since ≤ region.position)
    (word :
      WordFrom env.device since
        (region.memory state.genCurrent) index) :
    WordFrom env.device since
      ((parallelBody env encBuffer state region i).memory
        state.genCurrent)
      index := by
  unfold parallelBody
  split
  · split
    · simp only [fillBody, Memory.set_same]
      exact (sliceFill_sound env state i region.position).applyTo_keeps
        (sliceFill_aligned env state i region.position) le word
    · exact word
  · next encrypting =>
      have notBuf := separate.resolve_left encrypting
      split
      · exact word
      · simp only [encryptBody]
        rw [Memory.set_other _ notBuf]
        exact word

/-- The words one body counts. -/
theorem parallelBody_written
    (region : Region Aes)
    (i : Nat) :
    (parallelBody env encBuffer state region i).written ≤
      region.written +
        if i < state.config.threads then
          state.config.chunkSize
        else
          0 := by
  have words := sliceFill_words_le env state i region.position
  unfold parallelBody
  split
  · split
    · simp only [fillBody]
      omega
    · omega
  · split
    · omega
    · simp [encryptBody]

/-- A generating body that counts a whole slice leaves it fresh. -/
theorem parallelBody_fresh
    {region : Region Aes}
    {i index : Nat}
    (generates : state.generates = true)
    (generating : i < state.config.threads)
    (counted :
      region.written + state.config.chunkSize ≤
        (parallelBody env encBuffer state region i).written)
    (atLeast : i * state.config.chunkSize ≤ index)
    (below : index < (i + 1) * state.config.chunkSize) :
    WordFrom env.device region.position
      ((parallelBody env encBuffer state region i).memory
        state.genCurrent)
      index := by
  rw [Nat.succ_mul] at below
  simp only [parallelBody, generating, generates, if_true,
    fillBody, Memory.set_same] at counted ⊢
  have complete :=
    sliceFill_complete env state
      (show state.config.chunkSize ≤
        (sliceFill env state i region.position).generated / 8 by omega)
  exact (sliceFill_sound env state i region.position).applyTo_fresh
    (sliceFill_aligned env state i region.position) complete _
    (by omega) (by omega)

theorem runBodies_advances
    (order : List Nat)
    (region : Region Aes) :
    region.position ≤
      (runBodies env encBuffer state order region).position := by
  induction order generalizing region with
  | nil =>
      exact Nat.le_refl _
  | cons i rest inductionHypothesis =>
      exact Nat.le_trans
        (parallelBody_advances env encBuffer state region i)
        (inductionHypothesis _)

/-- Words from the device in `gen_current` survive all bodies of a region. -/
theorem runBodies_keeps
    {order : List Nat}
    {region : Region Aes}
    {since index : Nat}
    (separate :
      ∀ i ∈ order,
        i < state.config.threads ∨ state.genCurrent ≠ .buf)
    (le : since ≤ region.position)
    (word :
      WordFrom env.device since
        (region.memory state.genCurrent) index) :
    WordFrom env.device since
      ((runBodies env encBuffer state order region).memory
        state.genCurrent)
      index := by
  induction order generalizing region with
  | nil =>
      exact word
  | cons i rest inductionHypothesis =>
      apply inductionHypothesis
      · intro later member
        exact separate later (List.mem_cons_of_mem i member)
      · exact Nat.le_trans le
          (parallelBody_advances env encBuffer state region i)
      · exact parallelBody_keeps env encBuffer state
          (separate i List.mem_cons_self) le word

/-- The bodies of a region leave only earlier steps in `gen_current`. -/
theorem runBodies_stepsBefore
    {order : List Nat}
    {region : Region Aes}
    (separate :
      ∀ i ∈ order,
        i < state.config.threads ∨ state.genCurrent ≠ .buf)
    (before :
      StepsBefore region.position (region.memory state.genCurrent)) :
    StepsBefore (runBodies env encBuffer state order region).position
      ((runBodies env encBuffer state order region).memory
        state.genCurrent) := by
  induction order generalizing region with
  | nil =>
      exact before
  | cons i rest inductionHypothesis =>
      apply inductionHypothesis
      · intro later member
        exact separate later (List.mem_cons_of_mem i member)
      · unfold parallelBody
        split
        · split
          · simp only [fillBody, Memory.set_same]
            exact
              (sliceFill_sound env state i region.position).applyTo_before
                before
          · exact before
        · next encrypting =>
            have notBuf :=
              (separate i List.mem_cons_self).resolve_left encrypting
            split
            · exact before
            · simp only [encryptBody]
              rw [Memory.set_other _ notBuf]
              exact before

/-- All bodies together count at most one slice for each generating body. -/
theorem runBodies_written
    (order : List Nat)
    (region : Region Aes) :
    (runBodies env encBuffer state order region).written ≤
      region.written +
        state.config.chunkSize *
          order.countP (· < state.config.threads) := by
  induction order generalizing region with
  | nil =>
      exact Nat.le_refl _
  | cons i rest inductionHypothesis =>
      have first := parallelBody_written env encBuffer state region i
      have later :=
        inductionHypothesis
          (parallelBody env encBuffer state region i)
      simp only [List.countP_cons, decide_eq_true_eq, Nat.mul_add,
        mul_ite, Nat.mul_one, Nat.mul_zero]
      exact Nat.le_trans later (by omega)

/-- If all slices are counted as whole, every slice is fresh. -/
theorem runBodies_fresh
    {order : List Nat}
    {region : Region Aes}
    (generates : state.generates = true)
    (separate :
      ∀ i ∈ order,
        i < state.config.threads ∨ state.genCurrent ≠ .buf)
    (counted :
      region.written +
          state.config.chunkSize *
            order.countP (· < state.config.threads) ≤
        (runBodies env encBuffer state order region).written)
    {i index : Nat}
    (member : i ∈ order)
    (generating : i < state.config.threads)
    (atLeast : i * state.config.chunkSize ≤ index)
    (below : index < (i + 1) * state.config.chunkSize) :
    WordFrom env.device region.position
      ((runBodies env encBuffer state order region).memory
        state.genCurrent)
      index := by
  induction order generalizing region with
  | nil =>
      cases member
  | cons head rest inductionHypothesis =>
      have first := parallelBody_written env encBuffer state region head
      have later :=
        runBodies_written env encBuffer state rest
          (parallelBody env encBuffer state region head)
      have advances :=
        parallelBody_advances env encBuffer state region head
      have separateRest :
          ∀ i ∈ rest,
            i < state.config.threads ∨ state.genCurrent ≠ .buf := by
        intro later member
        exact separate later (List.mem_cons_of_mem head member)
      simp only [List.countP_cons, decide_eq_true_eq, Nat.mul_add,
        mul_ite, Nat.mul_one, Nat.mul_zero] at counted
      change
        _ ≤ (runBodies env encBuffer state rest
          (parallelBody env encBuffer state region head)).written
        at counted
      rcases List.mem_cons.mp member with isHead | inRest
      · subst head
        simp only [generating, if_true] at counted first
        apply runBodies_keeps env encBuffer state separateRest advances
        exact parallelBody_fresh env encBuffer state generates
          generating (by omega) atLeast below
      · have countedRest :
            (parallelBody env encBuffer state region head).written +
                state.config.chunkSize *
                  rest.countP (· < state.config.threads) ≤
              (runBodies env encBuffer state rest
                (parallelBody env encBuffer state region head)).written := by
          omega
        exact
          (inductionHypothesis separateRest countedRest inRest).since
            advances

end Region

section ParallelFor

variable
  {Aes : Type}
  (env : Environment)
  (encBuffer : EncBuffer Aes)

/-- The bodies of a region that generate are those of the threads. -/
theorem order_countP (state : ChunkState Aes) :
    (state.order env).countP (· < state.config.threads) =
      state.config.threads := by
  rw [ChunkState.order, (env.schedule_perm _ _).countP_eq,
    List.range_add, List.countP_append]
  have inside :
      (List.range state.config.threads).countP
        (· < state.config.threads) = state.config.threads := by
    rw [List.countP_eq_length.mpr, List.length_range]
    intro i member
    simpa using List.mem_range.mp member
  have outside :
      ((List.range state.config.aesThread).map
        (state.config.threads + ·)).countP
          (· < state.config.threads) = 0 := by
    rw [List.countP_eq_zero]
    intro i member
    obtain ⟨offset, _, rfl⟩ := List.mem_map.mp member
    simp
  rw [inside, outside, Nat.add_zero]

/-- Every body of a region is executed, and no other. -/
theorem mem_order
    {state : ChunkState Aes}
    {i : Nat} :
    i ∈ state.order env ↔
      i < state.config.threads + state.config.aesThread := by
  rw [ChunkState.order, (env.schedule_perm _ _).mem_iff, List.mem_range]

/-- Sizes and buffers that the passes of the chunk loop rely on. -/
structure ChunkState.Arrays (state : ChunkState Aes) : Prop where
  size :
    state.bufSize = state.config.chunkSize * state.config.threads
  plain :
    state.config.aesFlag = false → state.genCurrent = .buf
  separate :
    state.config.aesFlag = true →
    state.genCurrent ≠ .buf ∧
      state.genPrevious ≠ .buf ∧
      state.genCurrent ≠ state.genPrevious

variable (state : ChunkState Aes)

theorem parallelFor_advances :
    state.position ≤ (parallelFor env encBuffer state).position :=
  runBodies_advances env encBuffer state
    (state.order env) state.startRegion

/-- No body of a region without encryption writes to `buf` by itself. -/
theorem order_separate
    (arrays : state.Arrays) :
    ∀ i ∈ state.order env,
      i < state.config.threads ∨ state.genCurrent ≠ .buf := by
  intro i member
  cases encrypts : state.config.aesFlag with
  | false =>
      have bound := (mem_order env).mp member
      simp only [Cnf.aesThread, encrypts] at bound
      exact .inl (by simpa using bound)
  | true =>
      exact .inr (arrays.separate encrypts).1

/--
A generating region that counts the whole buffer has filled every word of
`gen_current` with a value delivered during the region.
-/
theorem parallelFor_fresh
    (arrays : state.Arrays)
    (generates : state.generates = true)
    (counted :
      (parallelFor env encBuffer state).written = state.bufSize)
    {index : Nat}
    (below : index < state.bufSize) :
    WordFrom env.device state.position
      ((parallelFor env encBuffer state).memory state.genCurrent)
      index := by
  have chunkPositive : 0 < state.config.chunkSize := by
    rw [arrays.size] at below
    exact Nat.pos_of_mul_pos_right (Nat.zero_lt_of_lt below)
  have slice : index / state.config.chunkSize < state.config.threads := by
    rw [arrays.size] at below
    exact Nat.div_lt_of_lt_mul below
  have allCounted :
      state.startRegion.written +
          state.config.chunkSize *
            (state.order env).countP (· < state.config.threads) ≤
        (parallelFor env encBuffer state).written := by
    have fromNothing : state.startRegion.written = 0 := rfl
    rw [order_countP, ← arrays.size, counted, fromNothing, Nat.zero_add]
  apply runBodies_fresh env encBuffer state generates
    (order_separate env state arrays) allCounted
  · exact (mem_order env).mpr
      (Nat.lt_of_lt_of_le slice (Nat.le_add_right _ _))
  · exact slice
  · exact Nat.div_mul_le_self index state.config.chunkSize
  · rw [Nat.succ_mul]
    exact Nat.lt_div_mul_add chunkPositive

/-- A region leaves only earlier steps in `gen_current`. -/
theorem parallelFor_stepsBefore
    (arrays : state.Arrays)
    (before :
      StepsBefore state.position (state.memory state.genCurrent)) :
    StepsBefore (parallelFor env encBuffer state).position
      ((parallelFor env encBuffer state).memory state.genCurrent) :=
  runBodies_stepsBefore env encBuffer state
    (order_separate env state arrays) before

end ParallelFor

section Frame

variable
  {Aes : Type}
  (env : Environment)
  (encBuffer : EncBuffer Aes)

/-- A region agrees with an earlier one except in the buffer being filled. -/
structure Region.SameBesides
    (filled : Buffer)
    (before after : Region Aes) : Prop where
  trace : after.trace = before.trace
  aes : after.aes = before.aes
  memory :
    ∀ query, query ≠ filled → after.memory query = before.memory query

theorem Region.SameBesides.trans
    {filled : Buffer}
    {first second third : Region Aes}
    (left : first.SameBesides filled second)
    (right : second.SameBesides filled third) :
    first.SameBesides filled third where
  trace := right.trace.trans left.trace
  aes := right.aes.trans left.aes
  memory := by
    intro query other
    rw [right.memory query other, left.memory query other]

/-- A body that does not encrypt touches nothing but `gen_current`. -/
theorem parallelBody_sameBesides
    (state : ChunkState Aes)
    (region : Region Aes)
    {i : Nat}
    (quiet : i < state.config.threads ∨ state.firstRun = true) :
    region.SameBesides state.genCurrent
      (parallelBody env encBuffer state region i) := by
  have same : region.SameBesides state.genCurrent region :=
    ⟨rfl, rfl, fun _ _ => rfl⟩
  unfold parallelBody
  split
  · split
    · refine ⟨rfl, rfl, ?_⟩
      intro query other
      simp only [fillBody]
      exact Memory.set_other _ other _
    · exact same
  · next encrypting =>
      rw [if_pos (quiet.resolve_left encrypting)]
      exact same

/-- Bodies that do not encrypt touch nothing but `gen_current`. -/
theorem runBodies_sameBesides
    (state : ChunkState Aes)
    {order : List Nat}
    (quiet :
      ∀ i ∈ order, i < state.config.threads ∨ state.firstRun = true)
    (region : Region Aes) :
    region.SameBesides state.genCurrent
      (runBodies env encBuffer state order region) := by
  induction order generalizing region with
  | nil =>
      exact ⟨rfl, rfl, fun _ _ => rfl⟩
  | cons i rest inductionHypothesis =>
      have first :=
        parallelBody_sameBesides env encBuffer state region
          (quiet i List.mem_cons_self)
      refine first.trans (inductionHypothesis ?_ _)
      intro later member
      exact quiet later (List.mem_cons_of_mem i member)

/-- A pass in which some body encrypts. -/
def ChunkState.encrypts (state : ChunkState Aes) : Bool :=
  state.config.aesFlag && !state.firstRun

/-- A region without encryption touches nothing but `gen_current`. -/
theorem parallelFor_sameBesides
    {state : ChunkState Aes}
    (quiet : state.encrypts = false) :
    state.startRegion.SameBesides state.genCurrent
      (parallelFor env encBuffer state) := by
  apply runBodies_sameBesides
  intro i member
  have bound := (mem_order env).mp member
  cases flag : state.config.aesFlag with
  | false =>
      simp only [Cnf.aesThread, flag] at bound
      exact .inl (by simpa using bound)
  | true =>
      exact .inr (by simpa [ChunkState.encrypts, flag] using quiet)

/-- What the encrypting body of a pass reads. -/
def ChunkState.encryptionSource (state : ChunkState Aes) : List Cell :=
  CellMemory.window (state.memory state.genPrevious) 0 state.bufSizeBytes

/-- What `rdrand_enc_buffer` reports to the encrypting body of a pass. -/
def ChunkState.encryption (state : ChunkState Aes) : Encryption Aes :=
  encBuffer state.aes state.encryptionSource

/-- The only effects of an encrypting region outside `gen_current`. -/
structure Region.Encrypted
    (state : ChunkState Aes)
    (region : Region Aes) : Prop where
  trace :
    region.trace =
      state.trace ++
        [.encrypted state.encryptionSource
          (state.encryption encBuffer).written]
  aes : region.aes = (state.encryption encBuffer).aes
  buf :
    region.memory .buf =
      CellMemory.store (state.memory .buf) 0
        (state.encryption encBuffer).written
  genPrevious :
    region.memory state.genPrevious = state.memory state.genPrevious

/-- The order of a region with AES: its encrypting body stands once. -/
theorem order_split
    {state : ChunkState Aes}
    (flag : state.config.aesFlag = true) :
    ∃ before after,
      state.order env = before ++ state.config.threads :: after ∧
        ∀ i ∈ before ++ after, i < state.config.threads := by
  have member : state.config.threads ∈ state.order env := by
    rw [mem_order]
    simp [Cnf.aesThread, flag]
  have nodup : (state.order env).Nodup := by
    rw [ChunkState.order, (env.schedule_perm _ _).nodup_iff]
    exact List.nodup_range
  obtain ⟨before, after, split⟩ := List.append_of_mem member
  refine ⟨before, after, split, ?_⟩
  intro i others
  have inOrder : i ∈ state.order env := by
    rw [split]
    rcases List.mem_append.mp others with inBefore | inAfter
    · exact List.mem_append_left _ inBefore
    · exact List.mem_append_right _ (List.mem_cons_of_mem _ inAfter)
  have bound := (mem_order env).mp inOrder
  simp only [Cnf.aesThread, flag, if_true] at bound
  have different : i ≠ state.config.threads := by
    rintro rfl
    rw [split, List.perm_middle.nodup_iff] at nodup
    exact (List.nodup_cons.mp nodup).1 others
  omega

/--
The encrypting body reads `gen_previous` as it was before the region, writes
`buf`, and runs once, wherever the schedule puts it.
-/
theorem parallelFor_encrypted
    {state : ChunkState Aes}
    (arrays : state.Arrays)
    (encrypts : state.encrypts = true) :
    Region.Encrypted encBuffer state
      (parallelFor env encBuffer state) := by
  have flags :
      state.config.aesFlag = true ∧ state.firstRun = false := by
    simpa [ChunkState.encrypts] using encrypts
  obtain ⟨flag, later⟩ := flags
  obtain ⟨currentNotBuf, previousNotBuf, different⟩ :=
    arrays.separate flag
  obtain ⟨before, after, split, generating⟩ := order_split env flag
  have first :=
    runBodies_sameBesides env encBuffer state
      (fun i (member : i ∈ before) =>
        .inl (generating i (List.mem_append_left _ member)))
      state.startRegion
  have body :
      ∀ region,
        parallelBody env encBuffer state region state.config.threads =
          encryptBody encBuffer state region := by
    intro region
    simp [parallelBody, later]
  have last :=
    runBodies_sameBesides env encBuffer state
      (fun i (member : i ∈ after) =>
        .inl (generating i (List.mem_append_right _ member)))
      (encryptBody encBuffer state
        (runBodies env encBuffer state before state.startRegion))
  have whole :
      parallelFor env encBuffer state =
        runBodies env encBuffer state after
          (encryptBody encBuffer state
            (runBodies env encBuffer state before state.startRegion)) := by
    rw [parallelFor, split, runBodies, List.foldl_append,
      List.foldl_cons, body]
    rfl
  have source :
      (runBodies env encBuffer state before state.startRegion).memory
        state.genPrevious = state.memory state.genPrevious :=
    first.memory _ different.symm
  have sameAes :
      (runBodies env encBuffer state before state.startRegion).aes =
        state.aes := first.aes
  have bufBefore :
      (runBodies env encBuffer state before state.startRegion).memory
        .buf = state.memory .buf := first.memory _ currentNotBuf.symm
  rw [whole]
  refine ⟨?_, ?_, ?_, ?_⟩
  · rw [last.trace]
    simp only [encryptBody, source, sameAes, first.trace]
    rfl
  · rw [last.aes]
    simp only [encryptBody, source, sameAes]
    rfl
  · rw [last.memory _ currentNotBuf.symm]
    simp only [encryptBody, source, sameAes, Memory.set_same, bufBefore]
    rfl
  · rw [last.memory _ different.symm]
    simp only [encryptBody]
    rw [Memory.set_other _ previousNotBuf, source]

end Frame

section Slices

variable
  {Aes : Type}
  (env : Environment)
  (encBuffer : EncBuffer Aes)
  (state : ChunkState Aes)

/-- The device lets every slice of some bodies be filled. -/
def SlicesFilled (order : List Nat) (region : Region Aes) : Prop :=
  ∀ before i after,
    order = before ++ i :: after →
    i < state.config.threads →
    (sliceFill env state i
      (runBodies env encBuffer state before region).position).generated =
        8 * state.config.chunkSize

/-- The device lets every slice of the pass be filled. -/
def SlicesComplete : Prop :=
  SlicesFilled env encBuffer state (state.order env) state.startRegion

variable {env encBuffer state}

theorem SlicesFilled.head
    {i : Nat}
    {rest : List Nat}
    {region : Region Aes}
    (filled :
      SlicesFilled env encBuffer state (i :: rest) region)
    (generating : i < state.config.threads) :
    (sliceFill env state i region.position).generated =
      8 * state.config.chunkSize :=
  filled [] i rest rfl generating

theorem SlicesFilled.tail
    {i : Nat}
    {rest : List Nat}
    {region : Region Aes}
    (filled :
      SlicesFilled env encBuffer state (i :: rest) region) :
    SlicesFilled env encBuffer state rest
      (parallelBody env encBuffer state region i) := by
  intro before later after split generating
  have extended : i :: rest = (i :: before) ++ later :: after := by
    rw [split]
    rfl
  exact filled (i :: before) later after extended generating

/-- A device that never fails lets every slice be filled. -/
theorem slicesComplete_of_neverFails
    (neverFails : env.device.NeverFails)
    (realMethod : state.config.method ≠ .methodsCount)
    (chunkBounded : state.config.chunkSize ≤ maxChunkSize) :
    SlicesComplete env encBuffer state := by
  have uintLarge : maxChunkSize * 8 < uintModulus := by
    decide
  have fits :
      state.config.chunkSize * 8 % uintModulus =
        state.config.chunkSize * 8 :=
    Nat.mod_eq_of_lt (by omega)
  intro before i after _ _
  rw [sliceFill,
    generateWithMetod_generated neverFails realMethod _
      (Nat.mod_lt _ (by decide)),
    fits]
  split <;> omega

/-- Slices that are all filled are counted as the whole buffer. -/
theorem runBodies_written_eq
    {order : List Nat}
    {region : Region Aes}
    (generates : state.generates = true)
    (filled : SlicesFilled env encBuffer state order region) :
    (runBodies env encBuffer state order region).written =
      region.written +
        state.config.chunkSize *
          order.countP (· < state.config.threads) := by
  induction order generalizing region with
  | nil =>
      rfl
  | cons i rest inductionHypothesis =>
      have later := inductionHypothesis filled.tail
      have head :
          (parallelBody env encBuffer state region i).written =
            region.written +
              if i < state.config.threads then
                state.config.chunkSize
              else
                0 := by
        unfold parallelBody
        split
        · next generating =>
            simp only [fillBody, filled.head generating]
            omega
        · split
          · rfl
          · rfl
      simp only [List.countP_cons, decide_eq_true_eq, Nat.mul_add,
        mul_ite, Nat.mul_one, Nat.mul_zero]
      change (runBodies env encBuffer state rest
        (parallelBody env encBuffer state region i)).written = _
      rw [later, head]
      omega

/-- Slices that are counted as the whole buffer are all filled. -/
theorem slicesFilled_of_written
    {order : List Nat}
    {region : Region Aes}
    (generates : state.generates = true)
    (counted :
      region.written +
          state.config.chunkSize *
            order.countP (· < state.config.threads) ≤
        (runBodies env encBuffer state order region).written) :
    SlicesFilled env encBuffer state order region := by
  induction order generalizing region with
  | nil =>
      intro before i after split
      simp at split
  | cons head rest inductionHypothesis =>
      have first := parallelBody_written env encBuffer state region head
      have later :=
        runBodies_written env encBuffer state rest
          (parallelBody env encBuffer state region head)
      simp only [List.countP_cons, decide_eq_true_eq, Nat.mul_add,
        mul_ite, Nat.mul_one, Nat.mul_zero] at counted
      change
        _ ≤ (runBodies env encBuffer state rest
          (parallelBody env encBuffer state region head)).written
        at counted
      intro before i after split generating
      cases before with
      | nil =>
          obtain ⟨rfl, rfl⟩ := List.cons.inj split
          simp only [generating, if_true] at counted
          apply sliceFill_complete
          simp only [parallelBody, generating, generates, if_true,
            fillBody] at later counted
          simp only [runBodies, List.foldl_nil]
          omega
      | cons next before =>
          obtain ⟨rfl, restSplit⟩ := List.cons.inj split
          exact inductionHypothesis (by omega) before i after restSplit
            generating

/-- A generating pass counts its whole buffer when every slice is filled. -/
theorem parallelFor_written_eq_iff
    (arrays : state.Arrays)
    (generates : state.generates = true) :
    (parallelFor env encBuffer state).written = state.bufSize ↔
      SlicesComplete env encBuffer state := by
  have fromNothing : state.startRegion.written = 0 := rfl
  constructor
  · intro counted
    apply slicesFilled_of_written generates
    rw [order_countP, ← arrays.size, fromNothing, Nat.zero_add]
    exact Nat.le_of_eq counted.symm
  · intro complete
    have counted := runBodies_written_eq generates complete
    rw [order_countP, ← arrays.size, fromNothing, Nat.zero_add] at counted
    exact counted

end Slices

end RdRand
