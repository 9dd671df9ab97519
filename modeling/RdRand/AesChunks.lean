import RdRand.AesSteps

namespace RdRand

/-!
# Runs as sequences of chunks

`rdrandGetBytesAesCtr` works chunk by chunk: it counts a chunk, acquires it,
and encrypts what it acquired.  A run of such calls is a sequence of chunks,
and the state after it depends on that sequence only.
-/

/-- A chunk of a run: its size, and the bytes acquired for it, if they were. -/
structure Chunk where
  size : Nat
  bytes : Option (List Byte)

/-- A chunk fits the buffer, and is as long as its size says. -/
structure Chunk.WellSized (chunk : Chunk) : Prop where
  bounded : chunk.size ≤ maxBufferSize
  length :
    ∀ bytes, chunk.bytes = some bytes → bytes.length = chunk.size

/-- A call of `rdrandGetBytesAesCtr`. -/
structure CtrRequest where
  count : Nat
  retryLimit : Int

/-- The request as one of the two kinds of calls. -/
def CtrRequest.call (request : CtrRequest) : AesCall :=
  .getBytesAesCtr request.count request.retryLimit

section Chunks

variable (ssl : OpenSsl)

/-- Count a chunk, and encrypt what was acquired for it. -/
def chunkStep (state : AesState) (chunk : Chunk) : AesState :=
  match chunk.bytes with
  | none => (counter ssl chunk.size state).state
  | some bytes =>
      (encryptPayload ssl bytes (counter ssl chunk.size state).state).state

/-- Go through some chunks. -/
def runChunks (chunks : List Chunk) (state : AesState) : AesState :=
  chunks.foldl (chunkStep ssl) state

@[simp] theorem runChunks_nil (state : AesState) :
    runChunks ssl [] state = state :=
  rfl

@[simp] theorem runChunks_cons
    (chunk : Chunk)
    (rest : List Chunk)
    (state : AesState) :
    runChunks ssl (chunk :: rest) state =
      runChunks ssl rest (chunkStep ssl state chunk) :=
  rfl

theorem runChunks_append
    (first second : List Chunk)
    (state : AesState) :
    runChunks ssl (first ++ second) state =
      runChunks ssl second (runChunks ssl first state) :=
  List.foldl_append

variable (device : Device) (buffer : StackBuffer)

/-- The chunks a sequence of requests goes through. -/
def requestChunks : List CtrRequest → AesRun → List Chunk
  | [], _ => []
  | request :: rest, run =>
      List.zipWith Chunk.mk (chunkSizes request.count)
          (rdrandGetBytesAesCtr ssl device buffer request.count
            request.retryLimit run.position run.state).acquisitions ++
        requestChunks rest (runCall ssl device buffer run request.call)

end Chunks

section Correspondence

variable {ssl : OpenSsl}

variable (ssl) in
/-- A chunk is a call of `counter` and an encryption of payload. -/
theorem chunkStep_reaches
    (state : AesState)
    {chunk : Chunk}
    (bounded : chunk.size ≤ maxBufferSize) :
    AesReaches ssl state (chunkStep ssl state chunk) := by
  have counted :
      AesReaches ssl state (counter ssl chunk.size state).state :=
    .counter .start bounded
  unfold chunkStep
  split
  · exact counted
  · exact .payload counted _

section Chunk

variable {state : AesState}

/-- A chunk whose acquisition comes short. -/
theorem ctrChunks_short
    {acquire : Nat → Nat → Acquired}
    {size position : Nat}
    {rest : List Nat}
    (short : (acquire size position).bytes = none) :
    ctrChunks ssl acquire (size :: rest) position state =
      { generated := 0
        written := []
        acquisitions := [none]
        position := (acquire size position).position
        state := (counter ssl size state).state } := by
  rw [ctrChunks]
  simp only [short]

/-- A chunk that is acquired but not encrypted. -/
theorem ctrChunks_failed
    {acquire : Nat → Nat → Acquired}
    {size position : Nat}
    {rest : List Nat}
    {bytes : List Byte}
    (acquired : (acquire size position).bytes = some bytes)
    (failed :
      (encryptPayload ssl bytes (counter ssl size state).state).output =
        none) :
    ctrChunks ssl acquire (size :: rest) position state =
      { generated := 0
        written := []
        acquisitions := [some bytes]
        position := (acquire size position).position
        state :=
          (encryptPayload ssl bytes
            (counter ssl size state).state).state } := by
  rw [ctrChunks]
  simp only [acquired, failed]

/-- A chunk that is acquired and encrypted. -/
theorem ctrChunks_done
    {acquire : Nat → Nat → Acquired}
    {size position : Nat}
    {rest : List Nat}
    {bytes output : List Byte}
    (acquired : (acquire size position).bytes = some bytes)
    (done :
      (encryptPayload ssl bytes (counter ssl size state).state).output =
        some output) :
    ctrChunks ssl acquire (size :: rest) position state =
      let later :=
        ctrChunks ssl acquire rest (acquire size position).position
          (encryptPayload ssl bytes (counter ssl size state).state).state
      { generated := size + later.generated
        written := output ++ later.written
        acquisitions := some bytes :: later.acquisitions
        position := later.position
        state := later.state } := by
  rw [ctrChunks]
  simp only [acquired, done]

end Chunk

/-- The first acquisition of a call is the one for its first chunk. -/
theorem ctrChunks_head
    (acquire : Nat → Nat → Acquired)
    (size position : Nat)
    (rest : List Nat)
    (state : AesState) :
    (ctrChunks ssl acquire (size :: rest) position
      state).acquisitions.head? =
        some (acquire size position).bytes := by
  cases acquired : (acquire size position).bytes with
  | none =>
      rw [ctrChunks_short acquired]
      rfl
  | some bytes =>
      cases done :
          (encryptPayload ssl bytes
            (counter ssl size state).state).output with
      | none =>
          rw [ctrChunks_failed acquired done]
          rfl
      | some output =>
          rw [ctrChunks_done acquired done]
          rfl

/-- The state after a call depends on its chunks only. -/
theorem ctrChunks_runChunks
    (acquire : Nat → Nat → Acquired)
    (sizes : List Nat)
    (position : Nat)
    (state : AesState) :
    (ctrChunks ssl acquire sizes position state).state =
      runChunks ssl
        (List.zipWith Chunk.mk sizes
          (ctrChunks ssl acquire sizes position state).acquisitions)
        state := by
  induction sizes generalizing position state with
  | nil =>
      rfl
  | cons size rest inductionHypothesis =>
      unfold ctrChunks
      simp only
      split
      · simp [chunkStep]
      · next bytes acquired =>
          split
          · simp [chunkStep]
          · simp only [List.zipWith_cons_cons, runChunks_cons, chunkStep]
            exact inductionHypothesis _ _

/-- A chunk the array `buf` was filled for has the size asked for. -/
theorem acquireBuffer_length
    {device : Device}
    {buffer : StackBuffer}
    {retryLimit : Int}
    {size position : Nat}
    {bytes : List Byte}
    (acquired :
      (acquireBuffer device buffer retryLimit size position).bytes =
        some bytes) :
    bytes.length = size := by
  unfold acquireBuffer at acquired
  simp only at acquired
  split at acquired
  · cases acquired
  · cases acquired
    simp

/-- The chunks of a call are well sized. -/
theorem ctrChunks_wellSized
    {acquire : Nat → Nat → Acquired}
    (complete :
      ∀ {size position bytes},
        (acquire size position).bytes = some bytes →
        bytes.length = size)
    {sizes : List Nat}
    (bounded : ∀ size ∈ sizes, size ≤ maxBufferSize)
    (position : Nat)
    (state : AesState) :
    ∀ chunk ∈
        List.zipWith Chunk.mk sizes
          (ctrChunks ssl acquire sizes position state).acquisitions,
      chunk.WellSized := by
  induction sizes generalizing position state with
  | nil =>
      intro chunk member
      cases member
  | cons size rest inductionHypothesis =>
      have small := bounded size List.mem_cons_self
      have boundedRest : ∀ later ∈ rest, later ≤ maxBufferSize :=
        fun later member => bounded later (List.mem_cons_of_mem _ member)
      unfold ctrChunks
      simp only
      intro chunk
      split
      · intro member
        rcases List.mem_cons.mp member with rfl | inRest
        · exact ⟨small, fun bytes impossible => nomatch impossible⟩
        · simp at inRest
      · next bytes acquired =>
          have first :
              Chunk.WellSized { size := size, bytes := some bytes } :=
            ⟨small, fun _ same =>
              (Option.some.inj same) ▸ complete acquired⟩
          split
          · intro member
            rcases List.mem_cons.mp member with rfl | inRest
            · exact first
            · simp at inRest
          · intro member
            rcases List.mem_cons.mp member with rfl | inRest
            · exact first
            · exact inductionHypothesis boundedRest _ _ chunk inRest

variable (device : Device) (buffer : StackBuffer)

/-- The state after a run depends on its chunks only. -/
theorem runCalls_runChunks
    (requests : List CtrRequest)
    (run : AesRun) :
    (runCalls ssl device buffer (requests.map CtrRequest.call)
        run).state =
      runChunks ssl (requestChunks ssl device buffer requests run)
        run.state := by
  induction requests generalizing run with
  | nil =>
      rfl
  | cons request rest inductionHypothesis =>
      have first :
          (runCall ssl device buffer run request.call).state =
            runChunks ssl
              (List.zipWith Chunk.mk (chunkSizes request.count)
                (rdrandGetBytesAesCtr ssl device buffer request.count
                  request.retryLimit run.position
                  run.state).acquisitions)
              run.state :=
        ctrChunks_runChunks _ _ _ _
      have later :=
        inductionHypothesis (runCall ssl device buffer run request.call)
      rw [first] at later
      rw [requestChunks, runChunks_append]
      exact later

variable (ssl) in
/-- The chunks of a run are well sized. -/
theorem requestChunks_wellSized
    (requests : List CtrRequest)
    (run : AesRun) :
    ∀ chunk ∈ requestChunks ssl device buffer requests run,
      chunk.WellSized := by
  induction requests generalizing run with
  | nil =>
      intro chunk member
      cases member
  | cons request rest inductionHypothesis =>
      intro chunk member
      rcases List.mem_append.mp member with inFirst | inRest
      · exact
          ctrChunks_wellSized acquireBuffer_length
            (chunkSizes_le request.count) _ _ chunk inFirst
      · exact inductionHypothesis _ chunk inRest

end Correspondence

end RdRand
