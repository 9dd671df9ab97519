import RdRand.AesChunks
import RdRand.AesSetUp

namespace RdRand

/-!
# The key schedule and the device

Two runs of the same requests from the same state, whose acquisitions succeed
and fail at the same places, go through the same states whatever the device
returns: the keys, the nonces and the keystream do not depend on it.
-/

/-- Two environments agree on everything but the random bytes. -/
structure OpenSsl.SameCipher (first second : OpenSsl) : Prop where
  keystream : second.keystream = first.keystream
  encryptOk : second.encryptOk = first.encryptOk
  initOk : second.initOk = first.initOk
  leftover : second.leftover = first.leftover

theorem OpenSsl.reliable_sameCipher
    (stream : List Byte → List Byte → Nat → Byte)
    (first second : Nat → Byte) :
    (reliable stream first).SameCipher (reliable stream second) :=
  ⟨rfl, rfl, rfl, rfl⟩

/-- The environments also give the same random bytes, or none are used. -/
def SameRandomness
    (first second : OpenSsl)
    (state : AesState) : Prop :=
  second.randBytes = first.randBytes ∨ state.cfg.keysType = .keysGiven

/-- The bytes a call acquired from the device. -/
def CtrResult.acquired (result : CtrResult) : List Byte :=
  (result.acquisitions.map fun bytes => bytes.getD []).flatten

/-- The acquisitions of two calls succeed and fail at the same places. -/
def SameOutcomes (first second : CtrResult) : Prop :=
  first.acquisitions.map Option.isSome =
    second.acquisitions.map Option.isSome

instance (first second : CtrResult) :
    Decidable (SameOutcomes first second) :=
  inferInstanceAs (Decidable (_ = _))

/--
Two calls end in the same state and return equally many bytes, whose
difference is the difference of the bytes they acquired.
-/
structure SameSchedule (first second : CtrResult) : Prop where
  state : second.state = first.state
  generated : second.generated = first.generated
  firstLength : first.written.length = first.generated
  secondLength : second.written.length = first.generated
  difference :
    CounterMode.difference first.written second.written =
      (CounterMode.difference first.acquired second.acquired).take
        first.generated

/-- One more chunk, acquired and encrypted by both calls. -/
theorem SameSchedule.chunk
    {first second : CtrResult}
    (later : SameSchedule first second)
    {size : Nat}
    {firstBytes secondBytes firstOutput secondOutput : List Byte}
    (firstSize : firstBytes.length = size)
    (secondSize : secondBytes.length = size)
    (firstLength : firstOutput.length = size)
    (secondLength : secondOutput.length = size)
    (difference :
      CounterMode.difference firstOutput secondOutput =
        CounterMode.difference firstBytes secondBytes) :
    SameSchedule
      { generated := size + first.generated
        written := firstOutput ++ first.written
        acquisitions := some firstBytes :: first.acquisitions
        position := first.position
        state := first.state }
      { generated := size + second.generated
        written := secondOutput ++ second.written
        acquisitions := some secondBytes :: second.acquisitions
        position := second.position
        state := second.state } where
  state := later.state
  generated := by
    rw [later.generated]
  firstLength := by
    rw [List.length_append, firstLength, later.firstLength]
  secondLength := by
    rw [List.length_append, secondLength, later.secondLength]
  difference := by
    have sameOutputs : firstOutput.length = secondOutput.length :=
      firstLength.trans secondLength.symm
    have sameBytes : firstBytes.length = secondBytes.length :=
      firstSize.trans secondSize.symm
    have chunkLength :
        (CounterMode.difference firstBytes secondBytes).length =
          size := by
      rw [CounterMode.difference, List.length_zipWith, firstSize,
        secondSize, Nat.min_self]
    change
      CounterMode.difference (firstOutput ++ first.written)
          (secondOutput ++ second.written) =
        (CounterMode.difference (firstBytes ++ first.acquired)
          (secondBytes ++ second.acquired)).take
            (size + first.generated)
    rw [CounterMode.difference_append sameOutputs,
      CounterMode.difference_append sameBytes, difference,
      later.difference, ← chunkLength, List.take_length_add_append]

section Results

variable (ssl : OpenSsl) (device : Device) (buffer : StackBuffer)

/-- The results of a sequence of requests. -/
def requestResults : List CtrRequest → AesRun → List CtrResult
  | [], _ => []
  | request :: rest, run =>
      rdrandGetBytesAesCtr ssl device buffer request.count
          request.retryLimit run.position run.state ::
        requestResults rest (runCall ssl device buffer run request.call)

end Results

section Steps

variable {first second : OpenSsl}

variable (same : first.SameCipher second)

include same

theorem encryptUpdate_congr (input : List Byte) (state : AesState) :
    encryptUpdate second input state =
      encryptUpdate first input state := by
  unfold encryptUpdate CipherContext.output
  rw [same.encryptOk, same.keystream]

theorem keyToOpenssl_congr (state : AesState) :
    keyToOpenssl second state = keyToOpenssl first state := by
  unfold keyToOpenssl
  rw [same.initOk]

theorem keysChange_congr (state : AesState) :
    keysChange second state = keysChange first state := by
  simp only [keysChange, keysChangeRotation, encryptUpdate_congr same,
    keyToOpenssl_congr same, same.leftover]

/-- `counter` does the same in both environments. -/
theorem counter_congr
    {state : AesState}
    (random : SameRandomness first second state)
    (num : Nat) :
    counter second num state = counter first num state := by
  unfold counter
  split
  · split
    · rw [keysChange_congr same]
    · next generated =>
        rcases random with sameBytes | given
        · simp only [keyGenerate, keysRandomize, randBytes, sameBytes,
            keyToOpenssl_congr same]
        · rw [given] at generated
          cases generated
  · rfl

/-- Encryptions of equally long payloads end in the same state. -/
theorem encryptPayload_congr
    {firstInput secondInput : List Byte}
    (sameLength : secondInput.length = firstInput.length)
    (state : AesState) :
    (encryptPayload second secondInput state).state =
        (encryptPayload first firstInput state).state ∧
      (encryptPayload second secondInput state).output.isSome =
        (encryptPayload first firstInput state).output.isSome := by
  have sameUpdate :
      (encryptUpdate second secondInput state).state =
        (encryptUpdate first firstInput state).state := by
    rw [encryptUpdate_state, encryptUpdate_state, same.encryptOk,
      sameLength]
  have sameSuccess :
      (encryptUpdate second secondInput state).output.isSome =
        (encryptUpdate first firstInput state).output.isSome := by
    rw [encryptUpdate_isSome, encryptUpdate_isSome, same.encryptOk]
  refine ⟨?_, sameSuccess⟩
  unfold encryptPayload
  cases firstOutput : (encryptUpdate first firstInput state).output with
  | none =>
      rw [firstOutput, Option.isSome_none, Option.isSome_eq_false_iff,
        Option.isNone_iff_eq_none] at sameSuccess
      simp only [firstOutput, sameSuccess, sameUpdate]
  | some firstBytes =>
      rw [firstOutput, Option.isSome_some] at sameSuccess
      obtain ⟨secondBytes, secondOutput⟩ :=
        Option.isSome_iff_exists.mp sameSuccess
      have firstLength := encryptUpdate_length first firstOutput
      have secondLength := encryptUpdate_length second secondOutput
      simp only [firstOutput, secondOutput, sameUpdate, firstLength,
        secondLength, sameLength]

/-- The outputs of two encryptions differ as their inputs do. -/
theorem encryptPayload_difference
    {firstInput secondInput firstOutput secondOutput : List Byte}
    (sameLength : firstInput.length = secondInput.length)
    {state : AesState}
    (firstDone :
      (encryptPayload first firstInput state).output =
        some firstOutput)
    (secondDone :
      (encryptPayload second secondInput state).output =
        some secondOutput) :
    CounterMode.difference firstOutput secondOutput =
      CounterMode.difference firstInput secondInput := by
  obtain ⟨key, nonce, keyed, rfl⟩ := encryptUpdate_output first firstDone
  obtain ⟨key', nonce', keyed', rfl⟩ := encryptUpdate_output second secondDone
  rw [keyed, Option.some.injEq, Prod.mk.injEq] at keyed'
  obtain ⟨rfl, rfl⟩ := keyed'
  rw [same.keystream]
  exact CounterMode.difference_apply _ _ sameLength

end Steps

section Calls

variable
  {first second : OpenSsl}
  (same : first.SameCipher second)

include same

/-- The chunks of two calls go through the same states. -/
theorem ctrChunks_sameSchedule
    {firstAcquire secondAcquire : Nat → Nat → Acquired}
    (firstComplete :
      ∀ {size position bytes},
        (firstAcquire size position).bytes = some bytes →
        bytes.length = size)
    (secondComplete :
      ∀ {size position bytes},
        (secondAcquire size position).bytes = some bytes →
        bytes.length = size)
    {sizes : List Nat}
    {firstPosition secondPosition : Nat}
    {state : AesState}
    (random : SameRandomness first second state)
    (outcomes :
      SameOutcomes
        (ctrChunks first firstAcquire sizes firstPosition state)
        (ctrChunks second secondAcquire sizes secondPosition state)) :
    SameSchedule
      (ctrChunks first firstAcquire sizes firstPosition state)
      (ctrChunks second secondAcquire sizes secondPosition state) := by
  induction sizes generalizing firstPosition secondPosition state with
  | nil =>
      exact ⟨rfl, rfl, rfl, rfl, rfl⟩
  | cons size rest inductionHypothesis =>
      have counted := counter_congr same random size
      have bothAcquired :
          (firstAcquire size firstPosition).bytes.isSome =
            (secondAcquire size secondPosition).bytes.isSome := by
        have heads := congrArg List.head? outcomes
        rw [List.head?_map, List.head?_map, ctrChunks_head,
          ctrChunks_head] at heads
        exact Option.some.inj heads
      cases firstAcquired :
          (firstAcquire size firstPosition).bytes with
      | none =>
          have secondAcquired :
              (secondAcquire size secondPosition).bytes = none := by
            simpa [firstAcquired] using bothAcquired.symm
          rw [ctrChunks_short firstAcquired,
            ctrChunks_short secondAcquired, counted]
          exact ⟨rfl, rfl, rfl, rfl, rfl⟩
      | some firstBytes =>
          rw [firstAcquired, Option.isSome_some] at bothAcquired
          obtain ⟨secondBytes, secondAcquired⟩ :=
            Option.isSome_iff_exists.mp bothAcquired.symm
          have firstSize := firstComplete firstAcquired
          have secondSize := secondComplete secondAcquired
          obtain ⟨sameState, sameSuccess⟩ :=
            encryptPayload_congr same
              (secondSize.trans firstSize.symm)
              (counter first size state).state
          cases firstDone :
              (encryptPayload first firstBytes
                (counter first size state).state).output with
          | none =>
              rw [firstDone, Option.isSome_none,
                Option.isSome_eq_false_iff,
                Option.isNone_iff_eq_none, ← counted] at sameSuccess
              rw [ctrChunks_failed firstAcquired firstDone,
                ctrChunks_failed secondAcquired sameSuccess, counted]
              exact ⟨sameState, rfl, rfl, rfl, rfl⟩
          | some firstOutput =>
              rw [firstDone, Option.isSome_some] at sameSuccess
              obtain ⟨secondOutput, secondDone⟩ :=
                Option.isSome_iff_exists.mp sameSuccess
              have randomNext :
                  SameRandomness first second
                    (encryptPayload first firstBytes
                      (counter first size state).state).state :=
                random.imp id fun given => by
                  rw [encryptPayload_keysType, counter_keysType, given]
              have secondNow := secondDone
              rw [← counted] at secondNow
              unfold SameOutcomes at outcomes
              rw [ctrChunks_done firstAcquired firstDone,
                ctrChunks_done secondAcquired secondNow, counted,
                sameState] at outcomes ⊢
              simp only [List.map_cons, Option.isSome_some,
                List.cons.injEq, true_and] at outcomes
              exact
                (inductionHypothesis randomNext outcomes).chunk
                  firstSize secondSize
                  ((encryptUpdate_length first firstDone).trans
                    firstSize)
                  ((encryptUpdate_length second secondDone).trans
                    secondSize)
                  (encryptPayload_difference same
                    (firstSize.trans secondSize.symm) firstDone
                    secondDone)

/--
The key schedule does not depend on the device: two runs of the same requests
from the same state go through the same states, and their outputs differ by
what they acquired.
-/
theorem requests_sameSchedule
    (firstDevice secondDevice : Device)
    (firstBuffer secondBuffer : StackBuffer)
    (requests : List CtrRequest)
    (firstPosition secondPosition : Nat)
    (start : AesState)
    (random : SameRandomness first second start)
    (outcomes :
      List.Forall₂ SameOutcomes
        (requestResults first firstDevice firstBuffer requests
          { position := firstPosition, state := start })
        (requestResults second secondDevice secondBuffer requests
          { position := secondPosition, state := start })) :
    (runCalls second secondDevice secondBuffer
          (requests.map CtrRequest.call)
          { position := secondPosition, state := start }).state =
        (runCalls first firstDevice firstBuffer
          (requests.map CtrRequest.call)
          { position := firstPosition, state := start }).state ∧
      List.Forall₂ SameSchedule
        (requestResults first firstDevice firstBuffer requests
          { position := firstPosition, state := start })
        (requestResults second secondDevice secondBuffer requests
          { position := secondPosition, state := start }) := by
  induction requests generalizing firstPosition secondPosition start with
  | nil =>
      exact ⟨rfl, .nil⟩
  | cons request rest inductionHypothesis =>
      obtain ⟨outcome, later⟩ := List.forall₂_cons.mp outcomes
      have call :=
        ctrChunks_sameSchedule same acquireBuffer_length
          acquireBuffer_length random outcome
      have reaches :
          AesReaches first start
            (rdrandGetBytesAesCtr first firstDevice firstBuffer
              request.count request.retryLimit firstPosition
              start).state :=
        ctrChunks_reaches _ (chunkSizes_le request.count) _ _
      have secondRun :
          runCall second secondDevice secondBuffer
              { position := secondPosition, state := start }
              request.call =
            { position :=
                (rdrandGetBytesAesCtr second secondDevice secondBuffer
                  request.count request.retryLimit secondPosition
                  start).position
              state :=
                (rdrandGetBytesAesCtr first firstDevice firstBuffer
                  request.count request.retryLimit firstPosition
                  start).state } := by
        simp only [runCall, CtrRequest.call]
        rw [show (rdrandGetBytesAesCtr second _ _ _ _ _ _).state = _ from
          call.state]
        rfl
      rw [secondRun] at later
      have randomLater :=
        random.imp id fun given => reaches.keysType.trans given
      obtain ⟨sameState, schedules⟩ :=
        inductionHypothesis _ _ _ randomLater later
      simp only [List.map_cons, runCalls, List.foldl_cons]
        at sameState ⊢
      rw [secondRun]
      refine ⟨sameState, ?_⟩
      rw [requestResults, requestResults, secondRun]
      exact .cons call schedules

end Calls

/-- Given keys, with other random bytes and another device in each run. -/
theorem requests_sameSchedule_twoKeys :
    (runCalls .sample
        (fun position => { rc := rdrandSuccess, value := 3 * position })
        .zeroed [.getBytesAesCtr 5000 10, .getBytesAesCtr 100 10]
        { position := 1, state := twoKeys .sample }).state =
      (runCalls (.reliable OpenSsl.countingStream fun _ => 0) Device.counting
        .zeroed [.getBytesAesCtr 5000 10, .getBytesAesCtr 100 10]
        { position := 0, state := twoKeys .sample }).state :=
  (requests_sameSchedule
    (OpenSsl.reliable_sameCipher OpenSsl.countingStream (fun _ => 0)
      (BitVec.ofNat 8))
    Device.counting
    (fun position => { rc := rdrandSuccess, value := 3 * position })
    .zeroed .zeroed
    [{ count := 5000, retryLimit := 10 },
      { count := 100, retryLimit := 10 }]
    0 1 (twoKeys .sample) (.inr rfl)
    (.cons (by decide +kernel) (.cons (by decide +kernel) .nil))).1

end RdRand
