import RdRand.ReliableCalls

namespace RdRand

/-!
# What `rdrand_enc_buffer` encrypts

`rdrand_enc_buffer` writes a prefix of its destination: it gives up at the
first chunk whose `counter` reports 0 or whose cipher call fails.  The
statements here hold whether or not OpenSSL fails, and say from the state
before a call how much of the destination the call writes.
-/

/-- The next cipher call succeeds. -/
structure AesState.CanEncrypt
    (ssl : OpenSsl)
    (state : AesState) : Prop where
  succeeds : ssl.encryptOk state.encryptCalls = true
  keyed : state.Keyed

/--
The number of the cipher call that encrypts a chunk after a key change.
Changing to a given key takes two cipher calls.
-/
def AesState.payloadCall (state : AesState) : Nat :=
  match state.cfg.keysType with
  | .keysGiven => state.encryptCalls + 2
  | .keysGenerated => state.encryptCalls

/--
A full chunk is encrypted: `counter` finds a key change due, draws the key and
the nonce where it generates them, and the cipher call succeeds.
-/
structure ChunkEncrypts
    (ssl : OpenSsl)
    (state : AesState) : Prop where
  due : KeyChangeDue maxBufferSize state
  drawn :
    state.cfg.keysType = .keysGenerated →
    (ssl.randBytes state.randCalls
        state.cfg.keys.keyLength).isSome = true ∧
      (ssl.randBytes (state.randCalls + 1)
        state.cfg.keys.keyLength).isSome = true
  keyed : ssl.initOk state.initCalls = true ∨ state.Keyed
  succeeds : ssl.encryptOk state.payloadCall = true

/-- The state after a full chunk at the front of a source. -/
def AesState.afterChunk
    (ssl : OpenSsl)
    (source : List Byte)
    (state : AesState) : AesState :=
  (encryptPayload ssl (source.take maxBufferSize)
    (counter ssl maxBufferSize state).state).state

/--
The chunks that hold the first `wanted` bytes of a source are encrypted.  The
tail is encrypted without being counted.
-/
inductive FrontEncrypts (ssl : OpenSsl) :
    Nat → List Byte → AesState → Prop where
  | nothing
      {source : List Byte}
      {state : AesState} :
      FrontEncrypts ssl 0 source state
  | tail
      {wanted : Nat}
      {source : List Byte}
      {state : AesState}
      (small : source.length < maxBufferSize)
      (encrypts : state.CanEncrypt ssl) :
      FrontEncrypts ssl wanted source state
  | chunk
      {wanted : Nat}
      {source : List Byte}
      {state : AesState}
      (full : maxBufferSize ≤ source.length)
      (encrypts : ChunkEncrypts ssl state)
      (rest :
        FrontEncrypts ssl (wanted - maxBufferSize)
          (source.drop maxBufferSize) (state.afterChunk ssl source)) :
      FrontEncrypts ssl wanted source state

section Counter

variable {ssl : OpenSsl} {state : AesState}

/-- A cipher call succeeds under this condition, and no other. -/
theorem encryptPayload_isSome_iff
    (input : List Byte) :
    (encryptPayload ssl input state).output.isSome = true ↔
      state.CanEncrypt ssl := by
  change (encryptUpdate ssl input state).output.isSome = true ↔ _
  rw [encryptUpdate_isSome, Bool.and_eq_true]
  exact
    ⟨fun ⟨succeeds, keyed⟩ => ⟨succeeds, keyed⟩,
      fun encrypts => ⟨encrypts.succeeds, encrypts.keyed⟩⟩

/-- The cipher calls that a call of `counter` leaves behind. -/
theorem counter_encryptCalls (num : Nat) :
    (counter ssl num state).state.encryptCalls =
      if KeyChangeDue num state then
        state.payloadCall
      else
        state.encryptCalls := by
  unfold counter AesState.payloadCall
  split
  · cases state.cfg.keysType with
    | keysGiven =>
        simp [setCounter]
    | keysGenerated =>
        simp
  · rfl

/-- A full chunk is encrypted under this condition, and no other. -/
theorem chunkEncrypts_iff (input : List Byte) :
    ChunkEncrypts ssl state ↔
      (counter ssl maxBufferSize state).success = true ∧
        (encryptPayload ssl input
          (counter ssl maxBufferSize state).state).output.isSome =
            true := by
  rw [encryptPayload_isSome_iff]
  constructor
  · intro chunk
    have success :
        (counter ssl maxBufferSize state).success = true :=
      (counter_success_iff_drawn _).mpr ⟨chunk.due, chunk.drawn⟩
    refine ⟨success, ?_, (counter_keyed_iff success).mpr chunk.keyed⟩
    rw [counter_encryptCalls, if_pos chunk.due]
    exact chunk.succeeds
  · rintro ⟨success, encrypts⟩
    obtain ⟨due, drawn⟩ := (counter_success_iff_drawn _).mp success
    refine
      ⟨due, drawn, (counter_keyed_iff success).mp encrypts.keyed, ?_⟩
    have succeeds := encrypts.succeeds
    rw [counter_encryptCalls, if_pos due] at succeeds
    exact succeeds

end Counter

section Written

variable {ssl : OpenSsl}

@[simp] theorem withCall_length
    (call : Nat)
    (bytes : List Byte) :
    (withCall call bytes).length = bytes.length := by
  simp [withCall]

@[simp] theorem withCall_snd (call : Nat) (bytes : List Byte) :
    (withCall call bytes).map Prod.snd = bytes := by
  simp [withCall, Function.comp_def]

/-- The tail of a source is written whole or not at all. -/
theorem encBufferTail_length
    (source : List Byte)
    (state : AesState)
    {wanted : Nat}
    (positive : 0 < wanted)
    (within : wanted ≤ source.length) :
    wanted ≤ (encBufferTail ssl source state).written.length ↔
      state.CanEncrypt ssl := by
  have nonempty : source.length ≠ 0 := by
    omega
  rw [← encryptPayload_isSome_iff source]
  unfold encBufferTail
  rw [if_pos nonempty]
  simp only
  split
  · next failed =>
      simp only [List.length_nil, failed, Option.isSome_none]
      simpa using Nat.ne_of_gt positive
  · next output done =>
      have length := encryptUpdate_length ssl done
      simp [done, length, within]

/-- A chunk that is encrypted is written, and the chunks after it go on. -/
theorem encBufferChunks_done
    {source : List Byte}
    {state : AesState}
    (encrypts : ChunkEncrypts ssl state)
    (full : maxBufferSize ≤ source.length)
    (chunks : Nat) :
    ∃ output,
      (encryptPayload ssl (source.take maxBufferSize)
          (counter ssl maxBufferSize state).state).output =
            some output ∧
        output.length = maxBufferSize ∧
        (encBufferChunks ssl (chunks + 1) source state).rc =
          (encBufferChunks ssl chunks (source.drop maxBufferSize)
            (state.afterChunk ssl source)).rc ∧
        (encBufferChunks ssl (chunks + 1) source state).written =
          withCall
              (counter ssl maxBufferSize state).state.encryptCalls
              output ++
            (encBufferChunks ssl chunks (source.drop maxBufferSize)
              (state.afterChunk ssl source)).written := by
  obtain ⟨success, some⟩ :=
    (chunkEncrypts_iff (source.take maxBufferSize)).mp encrypts
  obtain ⟨output, done⟩ := Option.isSome_iff_exists.mp some
  refine ⟨output, done, ?_, ?_⟩
  · rw [encryptUpdate_length ssl done, List.length_take,
      Nat.min_eq_left full]
  · rw [encBufferChunks]
    simp only [success, if_true, done]
    exact ⟨rfl, rfl⟩

/-- A chunk that is not encrypted ends the call with an error, unwritten. -/
theorem encBufferChunks_failed
    {source : List Byte}
    {state : AesState}
    (fails : ¬ ChunkEncrypts ssl state)
    (chunks : Nat) :
    (encBufferChunks ssl (chunks + 1) source state).rc = 0 ∧
      (encBufferChunks ssl (chunks + 1) source state).written = [] := by
  rw [encBufferChunks]
  simp only
  split
  · next success =>
      split
      · exact ⟨rfl, rfl⟩
      · next output done =>
          refine absurd ?_ fails
          rw [chunkEncrypts_iff (source.take maxBufferSize)]
          exact ⟨success, by rw [done]; rfl⟩
  · exact ⟨rfl, rfl⟩

/-- Some bytes of a source shorter than a chunk need its tail. -/
theorem frontEncrypts_tail_iff
    {wanted : Nat}
    {source : List Byte}
    {state : AesState}
    (positive : 0 < wanted)
    (small : source.length < maxBufferSize) :
    FrontEncrypts ssl wanted source state ↔ state.CanEncrypt ssl := by
  refine ⟨fun front => ?_, fun encrypts => .tail small encrypts⟩
  cases front with
  | nothing =>
      exact absurd positive (Nat.lt_irrefl 0)
  | tail _ encrypts =>
      exact encrypts
  | chunk full _ _ =>
      omega

/-- Some bytes of a longer source need its first chunk. -/
theorem frontEncrypts_chunk_iff
    {wanted : Nat}
    {source : List Byte}
    {state : AesState}
    (positive : 0 < wanted)
    (full : maxBufferSize ≤ source.length) :
    FrontEncrypts ssl wanted source state ↔
      ChunkEncrypts ssl state ∧
        FrontEncrypts ssl (wanted - maxBufferSize)
          (source.drop maxBufferSize)
          (state.afterChunk ssl source) := by
  refine
    ⟨fun front => ?_, fun ⟨encrypts, rest⟩ => .chunk full encrypts rest⟩
  cases front with
  | nothing =>
      exact absurd positive (Nat.lt_irrefl 0)
  | tail small _ =>
      omega
  | chunk _ encrypts rest =>
      exact ⟨encrypts, rest⟩

/-- A source that holds some chunks has a first one, and the rest. -/
theorem source_full_of_share
    {source : List Byte}
    {chunks : Nat}
    (share : source.length / maxBufferSize = chunks + 1) :
    maxBufferSize ≤ source.length ∧
      (source.drop maxBufferSize).length / maxBufferSize = chunks := by
  have full : maxBufferSize ≤ source.length := by
    by_contra small
    rw [Nat.div_eq_of_lt (Nat.not_le.mp small)] at share
    cases share
  refine ⟨full, ?_⟩
  rw [Nat.div_eq_sub_div (by decide) full] at share
  rw [List.length_drop]
  exact Nat.succ.inj share

/-- What the chunks write covers a front exactly under the condition. -/
theorem encBufferChunks_front_iff
    {chunks : Nat}
    {source : List Byte}
    {state : AesState}
    {wanted : Nat}
    (share : source.length / maxBufferSize = chunks)
    (within : wanted ≤ source.length) :
    wanted ≤ (encBufferChunks ssl chunks source state).written.length ↔
      FrontEncrypts ssl wanted source state := by
  have chunkPositive : 0 < maxBufferSize := by
    decide
  induction chunks generalizing source state wanted with
  | zero =>
      have small : source.length < maxBufferSize :=
        (Nat.div_eq_zero_iff_lt chunkPositive).mp share
      rcases Nat.eq_zero_or_pos wanted with rfl | positive
      · exact ⟨fun _ => .nothing, fun _ => Nat.zero_le _⟩
      · rw [encBufferChunks,
          encBufferTail_length source state positive within,
          frontEncrypts_tail_iff positive small]
  | succ chunks inductionHypothesis =>
      obtain ⟨full, restShare⟩ := source_full_of_share share
      have restWithin :
          wanted - maxBufferSize ≤ (source.drop maxBufferSize).length := by
        rw [List.length_drop]
        exact Nat.sub_le_sub_right within _
      rcases Nat.eq_zero_or_pos wanted with rfl | positive
      · exact ⟨fun _ => .nothing, fun _ => Nat.zero_le _⟩
      have rest :
          wanted - maxBufferSize ≤
              (encBufferChunks ssl chunks (source.drop maxBufferSize)
                (state.afterChunk ssl source)).written.length ↔ _ :=
        inductionHypothesis restShare restWithin
      rw [frontEncrypts_chunk_iff positive full, ← rest]
      by_cases encrypts : ChunkEncrypts ssl state
      · obtain ⟨output, _, length, _, written⟩ :=
          encBufferChunks_done encrypts full chunks
        rw [written, List.length_append, withCall_length, length,
          and_iff_right encrypts]
        exact Nat.sub_le_iff_le_add'.symm
      · rw [(encBufferChunks_failed encrypts chunks).2, List.length_nil,
          Nat.le_zero]
        refine ⟨fun none => ?_, fun ⟨made, _⟩ => absurd made encrypts⟩
        exact absurd none (Nat.ne_of_gt positive)

/-- `rdrand_enc_buffer` writes a front exactly under the condition. -/
theorem rdrandEncBuffer_front_iff
    {source : List Byte}
    {state : AesState}
    {wanted : Nat}
    (within : wanted ≤ source.length) :
    wanted ≤ (rdrandEncBuffer ssl source state).written.length ↔
      FrontEncrypts ssl wanted source state :=
  encBufferChunks_front_iff rfl within

/-- The numbers of the cipher calls only grow. -/
theorem AesReaches.encryptCalls_le
    {start later : AesState}
    (reaches : AesReaches ssl start later) :
    start.encryptCalls ≤ later.encryptCalls := by
  induction reaches with
  | start =>
      exact Nat.le_refl _
  | @counter state _ num _ inductionHypothesis =>
      refine Nat.le_trans inductionHypothesis ?_
      rw [counter_encryptCalls]
      unfold AesState.payloadCall
      split
      · split <;> omega
      · exact Nat.le_refl _
  | payload _ input inductionHypothesis =>
      rw [encryptPayload_encryptCalls]
      exact Nat.le_succ_of_le inductionHypothesis

/--
A byte is what a successful cipher call, of some number or a later one, made
of another.
-/
def EncryptedFrom
    (ssl : OpenSsl)
    (since : Nat)
    (plain : Byte)
    (call : Nat)
    (value : Byte) : Prop :=
  since ≤ call ∧
    ssl.encryptOk call = true ∧
    ∃ key nonce used, value = plain ^^^ ssl.keystream key nonce used

/-- Every byte of a successful encryption is made of its plain byte. -/
theorem encryptPayload_encryptedFrom
    {input output : List Byte}
    {state : AesState}
    (done : (encryptPayload ssl input state).output = some output)
    {since : Nat}
    (le : since ≤ state.encryptCalls)
    {index call : Nat}
    {value : Byte}
    (written :
      (withCall state.encryptCalls output)[index]? = some (call, value)) :
    ∃ plain,
      input[index]? = some plain ∧
        EncryptedFrom ssl since plain call value := by
  have some : (encryptPayload ssl input state).output.isSome = true := by
    rw [done]
    rfl
  obtain ⟨succeeds, _⟩ := (encryptPayload_isSome_iff input).mp some
  obtain ⟨key, nonce, _, rfl⟩ := encryptUpdate_output ssl done
  rw [withCall, List.getElem?_map, CounterMode.apply_getElem?,
    Option.map_map, Option.map_eq_some_iff] at written
  obtain ⟨plain, here, same⟩ := written
  obtain ⟨rfl, rfl⟩ := Prod.mk.inj same
  exact ⟨plain, here, le, succeeds, key, nonce, _, rfl⟩

/-- Every byte that the chunks write is made of its plain byte. -/
theorem encBufferChunks_encryptedFrom
    {chunks : Nat}
    {source : List Byte}
    (full : chunks * maxBufferSize ≤ source.length)
    {state : AesState}
    {since : Nat}
    (le : since ≤ state.encryptCalls)
    {index call : Nat}
    {value : Byte}
    (written :
      (encBufferChunks ssl chunks source state).written[index]? =
        some (call, value)) :
    ∃ plain,
      source[index]? = some plain ∧
        EncryptedFrom ssl since plain call value := by
  induction chunks generalizing source state index with
  | zero =>
      unfold encBufferChunks encBufferTail at written
      split at written
      · simp only at written
        split at written
        · simp at written
        · next output done =>
            exact encryptPayload_encryptedFrom done le written
      · simp at written
  | succ chunks inductionHypothesis =>
      by_cases encrypts : ChunkEncrypts ssl state
      · rw [Nat.succ_mul] at full
        obtain ⟨output, done, length, _, both⟩ :=
          encBufferChunks_done encrypts
            (Nat.le_trans (Nat.le_add_left _ _) full) chunks
        have counted : AesReaches ssl state
            (counter ssl maxBufferSize state).state :=
          .counter .start (Nat.le_refl _)
        have calls := Nat.le_trans le counted.encryptCalls_le
        rw [both, List.getElem?_append, withCall_length, length]
          at written
        split at written
        · next inChunk =>
            obtain ⟨plain, here, encrypted⟩ :=
              encryptPayload_encryptedFrom done calls written
            rw [List.getElem?_take_of_lt inChunk] at here
            exact ⟨plain, here, encrypted⟩
        · next inRest =>
            have restFull :
                chunks * maxBufferSize ≤
                  (source.drop maxBufferSize).length := by
              rw [List.length_drop]
              omega
            have restCalls :
                since ≤ (state.afterChunk ssl source).encryptCalls := by
              rw [AesState.afterChunk, encryptPayload_encryptCalls]
              exact Nat.le_succ_of_le calls
            obtain ⟨plain, here, encrypted⟩ :=
              inductionHypothesis restFull restCalls written
            rw [List.getElem?_drop, Nat.add_sub_cancel' (by omega)]
              at here
            exact ⟨plain, here, encrypted⟩
      · rw [(encBufferChunks_failed encrypts _).2] at written
        simp at written

end Written

/-- A cell is what a successful cipher call since some number made of another. -/
def Cell.EncryptionOf
    (ssl : OpenSsl)
    (since : Nat)
    (plain cell : Cell) : Prop :=
  ∃ call,
    cell.origin = .cipher call plain.origin ∧
      EncryptedFrom ssl since plain.value call cell.value

section Cells

variable {ssl : OpenSsl} {state : AesState}

/-- A cipher call since some number is one since any earlier number. -/
theorem Cell.EncryptionOf.since
    {since earlier : Nat}
    {plain cell : Cell}
    (encryption : plain.EncryptionOf ssl since cell)
    (le : earlier ≤ since) :
    plain.EncryptionOf ssl earlier cell := by
  obtain ⟨call, origin, notBefore, made⟩ := encryption
  exact ⟨call, origin, Nat.le_trans le notBefore, made⟩

/-- The generator's calls of `rdrand_enc_buffer` take steps of the AES layer. -/
theorem encBufferCells_reaches
    (source : List Cell)
    (state : AesState) :
    AesReaches ssl state (rdrandEncBufferCells ssl state source).aes :=
  encBufferChunks_reaches _ _ _

/-- Under the condition, the front of the destination is encrypted. -/
theorem encBufferCells_front
    {source : List Cell}
    {wanted : Nat}
    (front : FrontEncrypts ssl wanted (source.map Cell.value) state)
    (within : wanted ≤ source.length)
    (memory : Nat → Cell)
    {offset : Nat}
    (below : offset < wanted) :
    ∃ plain,
      source[offset]? = some plain ∧
        plain.EncryptionOf ssl state.encryptCalls
          (CellMemory.store memory 0
            (rdrandEncBufferCells ssl state source).written offset) := by
  have inSource : offset < source.length :=
    Nat.lt_of_lt_of_le below within
  have bytesWithin : wanted ≤ (source.map Cell.value).length := by
    rw [List.length_map]
    exact within
  have covered := (rdrandEncBuffer_front_iff bytesWithin).mpr front
  have inWritten :
      offset <
        (rdrandEncBuffer ssl (source.map Cell.value)
          state).written.length :=
    Nat.lt_of_lt_of_le below covered
  obtain ⟨⟨call, value⟩, entry⟩ :
      ∃ entry,
        (rdrandEncBuffer ssl (source.map Cell.value)
          state).written[offset]? = some entry :=
    ⟨_, List.getElem?_eq_getElem inWritten⟩
  obtain ⟨byte, here, encrypted⟩ :=
    encBufferChunks_encryptedFrom (Nat.div_mul_le_self _ _)
      (Nat.le_refl _) entry
  rw [List.getElem?_map, Option.map_eq_some_iff] at here
  obtain ⟨plain, found, rfl⟩ := here
  refine ⟨plain, found, call, ?_, ?_⟩
  · simp [CellMemory.store, rdrandEncBufferCells, List.getElem?_zipWith,
      entry, found]
  · simpa [CellMemory.store, rdrandEncBufferCells,
      List.getElem?_zipWith, entry, found] using encrypted

end Cells

end RdRand
