import RdRand.AesChunks

namespace RdRand

/-!
# Calls in pieces

Both encrypting functions work chunk by chunk and keep nothing between two
chunks but the state of the library.  A request can therefore be cut wherever
a full chunk ends: calls for the pieces, one after another until one comes
short, do what one call for all of them does.
-/

/-- A result and then another one. -/
def CtrResult.andThen (first second : CtrResult) : CtrResult where
  generated := first.generated + second.generated
  written := first.written ++ second.written
  acquisitions := first.acquisitions ++ second.acquisitions
  position := second.position
  state := second.state

/-- What a call wrote and then another one. -/
def Encrypted.andThen (first second : Encrypted) : Encrypted where
  rc := second.rc
  written := first.written ++ second.written
  state := second.state

section Calls

variable
  (ssl : OpenSsl)
  (device : Device)
  (buffer : StackBuffer)
  (retryLimit : Int)

/-- Calls of `rdrand_get_bytes_aes_ctr` until one comes short. -/
def ctrCalls : List Nat → Nat → AesState → CtrResult
  | [], position, state =>
      { generated := 0
        written := []
        acquisitions := []
        position := position
        state := state }
  | count :: rest, position, state =>
      let first :=
        rdrandGetBytesAesCtr ssl device buffer count retryLimit position
          state
      if first.generated = count then
        first.andThen (ctrCalls rest first.position first.state)
      else
        first

/-- Calls of `rdrand_enc_buffer` until one fails. -/
def encBufferCalls : List (List Byte) → AesState → Encrypted
  | [], state =>
      { rc := 1, written := [], state := state }
  | source :: rest, state =>
      let first := rdrandEncBuffer ssl source state
      if first.rc = 1 then
        first.andThen (encBufferCalls rest first.state)
      else
        first

end Calls

section Chunks

variable {ssl : OpenSsl}

section Acquired

variable
  {acquire : Nat → Nat → Acquired}
  {size position : Nat}
  {state : AesState}

/-- A chunk that is not acquired or not encrypted is the last one. -/
theorem ctrChunks_stop
    (stops :
      ∀ bytes,
        (acquire size position).bytes = some bytes →
        (encryptPayload ssl bytes (counter ssl size state).state).output =
          none) :
    ∃ last : CtrResult,
      last.generated = 0 ∧
        ∀ rest,
          ctrChunks ssl acquire (size :: rest) position state = last := by
  unfold ctrChunks
  simp only
  cases acquired : (acquire size position).bytes with
  | none =>
      exact ⟨_, rfl, fun _ => rfl⟩
  | some bytes =>
      refine
        ⟨{ generated := 0
           written := []
           acquisitions := [some bytes]
           position := (acquire size position).position
           state :=
            (encryptPayload ssl bytes
              (counter ssl size state).state).state },
          rfl, fun _ => ?_⟩
      simp only [stops bytes acquired]

/-- A chunk that is acquired and encrypted, and those behind it. -/
theorem ctrChunks_next
    {bytes output : List Byte}
    (acquired : (acquire size position).bytes = some bytes)
    (done :
      (encryptPayload ssl bytes (counter ssl size state).state).output =
        some output)
    (rest : List Nat) :
    ctrChunks ssl acquire (size :: rest) position state =
      CtrResult.andThen
        { generated := size
          written := output
          acquisitions := [some bytes]
          position := (acquire size position).position
          state :=
            (encryptPayload ssl bytes
              (counter ssl size state).state).state }
        (ctrChunks ssl acquire rest (acquire size position).position
          (encryptPayload ssl bytes
            (counter ssl size state).state).state) := by
  rw [ctrChunks]
  simp only [acquired, done]
  rfl

end Acquired

/-- What follows a whole front may be added to it first. -/
theorem CtrResult.andThen_front
    (chunk front later : CtrResult)
    (total : Nat) :
    (if (chunk.andThen front).generated = chunk.generated + total then
        (chunk.andThen front).andThen later
      else
        chunk.andThen front) =
      chunk.andThen
        (if front.generated = total then front.andThen later
          else front) := by
  have same :
      (chunk.andThen front).generated = chunk.generated + total ↔
        front.generated = total :=
    Nat.add_left_cancel_iff
  simp only [same]
  split
  · simp [CtrResult.andThen, Nat.add_assoc]
  · rfl

/-- Some chunks, and then others if none of the first came short. -/
theorem ctrChunks_append
    (ssl : OpenSsl)
    (acquire : Nat → Nat → Acquired)
    {first : List Nat}
    (positive : ∀ size ∈ first, 0 < size)
    (second : List Nat)
    (position : Nat)
    (state : AesState) :
    let front := ctrChunks ssl acquire first position state
    ctrChunks ssl acquire (first ++ second) position state =
      if front.generated = first.sum then
        front.andThen
          (ctrChunks ssl acquire second front.position front.state)
      else
        front := by
  induction first generalizing position state with
  | nil =>
      simp [ctrChunks, CtrResult.andThen]
  | cons size rest inductionHypothesis =>
      obtain ⟨some, restPositive⟩ := List.forall_mem_cons.mp positive
      by_cases goes :
          ∃ bytes output,
            (acquire size position).bytes = Option.some bytes ∧
              (encryptPayload ssl bytes
                (counter ssl size state).state).output =
                  Option.some output
      · obtain ⟨bytes, output, acquired, done⟩ := goes
        have later :=
          inductionHypothesis restPositive
            (acquire size position).position
            (encryptPayload ssl bytes (counter ssl size state).state).state
        simp only at later
        simp only [List.cons_append, ctrChunks_next acquired done, later,
          List.sum_cons]
        exact (CtrResult.andThen_front _ _ _ _).symm
      · have stops :
            ∀ bytes,
              (acquire size position).bytes = Option.some bytes →
              (encryptPayload ssl bytes
                (counter ssl size state).state).output = none := by
          intro bytes acquired
          by_contra done
          obtain ⟨output, done⟩ := Option.ne_none_iff_exists'.mp done
          exact goes ⟨bytes, output, acquired, done⟩
        obtain ⟨last, nothing, stopped⟩ := ctrChunks_stop stops
        have short : ¬ last.generated = size + rest.sum := by
          omega
        simp only [List.cons_append, stopped, List.sum_cons]
        rw [if_neg short]

theorem chunkSizes_positive (count : Nat) :
    ∀ size ∈ chunkSizes count, 0 < size := by
  intro size member
  rcases List.mem_append.mp member with full | inTail
  · rw [List.eq_of_mem_replicate full]
    decide
  · split at inTail
    · next tail =>
        rw [List.mem_singleton.mp inTail]
        exact Nat.pos_of_ne_zero tail
    · cases inTail

/-- The sizes of the chunks make up the amount. -/
theorem chunkSizes_sum (count : Nat) : (chunkSizes count).sum = count := by
  have parts := Nat.div_add_mod count maxBufferSize
  rw [Nat.mul_comm] at parts
  unfold chunkSizes
  split
  · simpa using parts
  · next noTail =>
      have exactly : count % maxBufferSize = 0 :=
        Decidable.not_not.mp noTail
      rw [exactly] at parts
      simpa using parts

/-- The chunks of a request that is cut where a full chunk ends. -/
theorem chunkSizes_add
    {first : Nat}
    (whole : maxBufferSize ∣ first)
    (second : Nat) :
    chunkSizes (first + second) = chunkSizes first ++ chunkSizes second := by
  obtain ⟨chunks, rfl⟩ := whole
  have positive : 0 < maxBufferSize := by
    decide
  simp only [chunkSizes, Nat.mul_add_div positive, Nat.mul_add_mod,
    Nat.mul_div_cancel_left _ positive, Nat.mul_mod_right,
    ← List.replicate_append_replicate, ne_eq, not_true_eq_false,
    if_false, List.append_nil, List.append_assoc]

/-- A request that is cut where a full chunk ends. -/
theorem rdrandGetBytesAesCtr_add
    (device : Device)
    (buffer : StackBuffer)
    (retryLimit : Int)
    {first : Nat}
    (whole : maxBufferSize ∣ first)
    (second position : Nat)
    (state : AesState) :
    let front :=
      rdrandGetBytesAesCtr ssl device buffer first retryLimit position
        state
    rdrandGetBytesAesCtr ssl device buffer (first + second) retryLimit
        position state =
      if front.generated = first then
        front.andThen
          (rdrandGetBytesAesCtr ssl device buffer second retryLimit
            front.position front.state)
      else
        front := by
  have chunks :=
    ctrChunks_append ssl (acquireBuffer device buffer retryLimit)
      (chunkSizes_positive first) (chunkSizes second) position state
  rw [← chunkSizes_add whole, chunkSizes_sum] at chunks
  exact chunks

/-- Some full chunks, and then others if the first were encrypted. -/
theorem encBufferChunks_append
    {chunks : Nat}
    {first : List Byte}
    (length : first.length = maxBufferSize * chunks)
    (more : Nat)
    (second : List Byte)
    (state : AesState) :
    let front := encBufferChunks ssl chunks first state
    encBufferChunks ssl (chunks + more) (first ++ second) state =
      if front.rc = 1 then
        front.andThen (encBufferChunks ssl more second front.state)
      else
        front := by
  induction chunks generalizing first state with
  | zero =>
      have empty : first = [] := List.length_eq_zero_iff.mp length
      subst empty
      simp [encBufferChunks, encBufferTail, Encrypted.andThen]
  | succ chunks inductionHypothesis =>
      rw [Nat.mul_succ] at length
      have full : maxBufferSize ≤ first.length := by
        omega
      have rest :
          (first.drop maxBufferSize).length = maxBufferSize * chunks := by
        rw [List.length_drop]
        omega
      simp only [Nat.add_right_comm chunks 1 more]
      rw [encBufferChunks, encBufferChunks,
        List.take_append_of_le_length full,
        List.drop_append_of_le_length full]
      simp only
      split
      · cases done :
            (encryptPayload ssl (first.take maxBufferSize)
              (counter ssl maxBufferSize state).state).output with
        | none =>
            rfl
        | some output =>
            have later :=
              inductionHypothesis rest
                (encryptPayload ssl (first.take maxBufferSize)
                  (counter ssl maxBufferSize state).state).state
            simp only [later]
            split
            · simp [Encrypted.andThen]
            · rfl
      · rfl

/-- A buffer that is cut where a full chunk ends. -/
theorem rdrandEncBuffer_append
    {first : List Byte}
    (whole : maxBufferSize ∣ first.length)
    (second : List Byte)
    (state : AesState) :
    let front := rdrandEncBuffer ssl first state
    rdrandEncBuffer ssl (first ++ second) state =
      if front.rc = 1 then
        front.andThen (rdrandEncBuffer ssl second front.state)
      else
        front := by
  obtain ⟨chunks, length⟩ := whole
  have positive : 0 < maxBufferSize := by
    decide
  simp only [rdrandEncBuffer, List.length_append, length,
    Nat.mul_add_div positive, Nat.mul_div_cancel_left _ positive]
  exact encBufferChunks_append length _ second state

end Chunks

section Pieces

variable
  (ssl : OpenSsl)
  (device : Device)
  (buffer : StackBuffer)
  (retryLimit : Int)

/-- One call acquires and encrypts what calls for its pieces do. -/
theorem ctrCalls_eq
    {counts : List Nat}
    (whole : ∀ count ∈ counts.dropLast, maxBufferSize ∣ count)
    (position : Nat)
    (state : AesState) :
    ctrCalls ssl device buffer retryLimit counts position state =
      rdrandGetBytesAesCtr ssl device buffer counts.sum retryLimit
        position state := by
  induction counts generalizing position state with
  | nil =>
      rfl
  | cons count rest inductionHypothesis =>
      cases rest with
      | nil =>
          simp [ctrCalls, CtrResult.andThen]
      | cons next rest =>
          rw [List.dropLast_cons_cons] at whole
          obtain ⟨first, others⟩ := List.forall_mem_cons.mp whole
          rw [ctrCalls]
          simp only [inductionHypothesis others]
          exact
            (rdrandGetBytesAesCtr_add device buffer retryLimit first
              (next :: rest).sum position state).symm

/-- One call encrypts what calls for its pieces do. -/
theorem encBufferCalls_eq
    {sources : List (List Byte)}
    (whole :
      ∀ source ∈ sources.dropLast, maxBufferSize ∣ source.length)
    (state : AesState) :
    encBufferCalls ssl sources state =
      rdrandEncBuffer ssl sources.flatten state := by
  induction sources generalizing state with
  | nil =>
      rfl
  | cons source rest inductionHypothesis =>
      cases rest with
      | nil =>
          have last :
              ∀ encrypted : Encrypted,
                (if encrypted.rc = 1 then
                  encrypted.andThen
                    { rc := 1, written := [], state := encrypted.state }
                else
                  encrypted) = encrypted := by
            intro encrypted
            split
            · next done =>
                cases encrypted
                cases done
                simp [Encrypted.andThen]
            · rfl
          simpa [encBufferCalls] using last _
      | cons next rest =>
          rw [List.dropLast_cons_cons] at whole
          obtain ⟨first, others⟩ := List.forall_mem_cons.mp whole
          rw [encBufferCalls]
          simp only [inductionHypothesis others]
          exact
            (rdrandEncBuffer_append first (next :: rest).flatten
              state).symm

end Pieces

/--
Requests and buffers may be cut wherever a full chunk ends: calls for the
pieces, one after another until one comes short, return, write, acquire and
leave what one call does.
-/
theorem calls_inPieces
    (ssl : OpenSsl)
    {counts : List Nat}
    (wholeCounts : ∀ count ∈ counts.dropLast, maxBufferSize ∣ count)
    {sources : List (List Byte)}
    (wholeSources :
      ∀ source ∈ sources.dropLast, maxBufferSize ∣ source.length) :
    (∀ device buffer retryLimit position state,
      ctrCalls ssl device buffer retryLimit counts position state =
        rdrandGetBytesAesCtr ssl device buffer counts.sum retryLimit
          position state) ∧
      ∀ state,
        encBufferCalls ssl sources state =
          rdrandEncBuffer ssl sources.flatten state :=
  ⟨fun device buffer retryLimit =>
      ctrCalls_eq ssl device buffer retryLimit wholeCounts,
    encBufferCalls_eq ssl wholeSources⟩

/-- A full chunk and ten bytes. -/
theorem calls_inPieces_tenBytes :
    (∀ device buffer retryLimit position state,
      ctrCalls .sample device buffer retryLimit [2048, 10] position
          state =
        rdrandGetBytesAesCtr .sample device buffer 2058 retryLimit
          position state) ∧
      ∀ state,
        encBufferCalls .sample
            [List.replicate 2048 7, List.replicate 10 9] state =
          rdrandEncBuffer .sample
            (List.replicate 2048 7 ++ List.replicate 10 9) state := by
  have lengths :
      ∀ source ∈
        [List.replicate 2048 (7 : Byte), List.replicate 10 9].dropLast,
        maxBufferSize ∣ source.length := by
    intro source member
    rw [List.mem_singleton.mp member, List.length_replicate]
    exact Nat.dvd_refl _
  exact calls_inPieces .sample (by decide) lengths

end RdRand
