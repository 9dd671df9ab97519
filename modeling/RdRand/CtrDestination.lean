import RdRand.BufferResult
import RdRand.ControlLoop
import RdRand.DeviceWords

namespace RdRand

/-!
# The destination of the encrypted bytes

`rdrand_get_bytes_aes_ctr` acquires a chunk into one array, encrypts it into
another one, and copies that to its place in the destination.  It returns as
soon as an acquisition or an encryption fails.  Whatever has been copied by
then is a front of the destination, as long as the amount it returns.
-/

open ControlLoop

/-- An acquisition of a chunk, from a device position on. -/
structure ChunkAcquisition where
  size : Nat
  position : Nat
  acquired : Acquired

/--
A call of `EVP_EncryptUpdate` on payload: the state that it finds, its input,
and its output if it succeeds.
-/
structure PayloadCall where
  before : AesState
  input : List Byte
  output : Option (List Byte)

/--
The variables of `rdrand_get_bytes_aes_ctr`, with the device position, the
state of the library, and the calls made so far.
-/
structure CtrState where
  i : Nat
  generated : Nat
  output : Nat → Byte
  dest : Nat → Byte
  position : Nat
  state : AesState
  acquisitions : List ChunkAcquisition
  encryptions : List PayloadCall

/-- The early returns of `rdrand_get_bytes_aes_ctr`. -/
inductive CtrExit where
  | notAcquired
  | notEncrypted
  deriving Repr, DecidableEq

namespace CtrState

/-- Everything the successful cipher calls have put out, in order. -/
def ciphertext (ctr : CtrState) : List Byte :=
  (ctr.encryptions.filterMap PayloadCall.output).flatten

/-- No acquisition and no encryption has failed. -/
def Unfailed (ctr : CtrState) : Prop :=
  (∀ acquisition ∈ ctr.acquisitions,
    acquisition.acquired.bytes.isSome) ∧
    ∀ call ∈ ctr.encryptions, call.output.isSome

end CtrState

section Call

variable
  (ssl : OpenSsl)
  (device : Device)
  (buffer : StackBuffer)
  (retryLimit : Int)

namespace CtrState

/-- Count a chunk, and acquire it; the result of `counter` is not used. -/
def acquire (size : Nat) (ctr : CtrState) : CtrState :=
  let acquired :=
    acquireBuffer device buffer retryLimit size ctr.position
  { ctr with
    position := acquired.position
    state := (counter ssl size ctr.state).state
    acquisitions :=
      ctr.acquisitions ++
        [{ size := size
           position := ctr.position
           acquired := acquired }] }

/-- Encrypt a chunk. -/
def encrypt (bytes : List Byte) (ctr : CtrState) : CtrState :=
  let update := encryptPayload ssl bytes ctr.state
  { ctr with
    state := update.state
    encryptions :=
      ctr.encryptions ++
        [{ before := ctr.state
           input := bytes
           output := update.output }] }

/-- Put a ciphertext into `output`, and copy a chunk of that to `dest`. -/
def copy (size : Nat) (produced : List Byte) (ctr : CtrState) : CtrState :=
  let output := CellMemory.store ctr.output 0 produced
  { ctr with
    output := output
    dest :=
      CellMemory.store ctr.dest (ctr.i * maxBufferSize % uintModulus)
        (CellMemory.window output 0 size)
    generated := (ctr.generated + size) % uintModulus }

/-- `i++`. -/
def nextChunk (ctr : CtrState) : CtrState :=
  { ctr with i := (ctr.i + 1) % uintModulus }

end CtrState

/-- What is done for a chunk, or for the tail. -/
def ctrChunk (size : Nat) (ctr : CtrState) : Pass CtrState CtrExit :=
  let acquired := ctr.acquire ssl device buffer retryLimit size
  match (acquireBuffer device buffer retryLimit size ctr.position).bytes with
  | none => .leave .notAcquired acquired
  | some bytes =>
      let encrypted := acquired.encrypt ssl bytes
      match (encryptPayload ssl bytes acquired.state).output with
      | none => .leave .notEncrypted encrypted
      | some produced => .again (encrypted.copy size produced)

/-- The loop over the full chunks that are left. -/
def ctrFullChunks : Nat → CtrState → Pass CtrState CtrExit
  | 0, ctr => .again ctr
  | remaining + 1, ctr =>
      match ctrChunk ssl device buffer retryLimit maxBufferSize ctr with
      | .leave exit final => .leave exit final
      | .again next => ctrFullChunks remaining next.nextChunk

/-- The full chunks, and then the tail. -/
def ctrBody (count : Nat) (ctr : CtrState) : Pass CtrState CtrExit :=
  match
    ctrFullChunks ssl device buffer retryLimit
      (count / maxBufferSize) ctr with
  | .leave exit final => .leave exit final
  | .again full =>
      if count % maxBufferSize ≠ 0 then
        ctrChunk ssl device buffer retryLimit (count % maxBufferSize) full
      else
        .again full

/-- The variables before the first chunk. -/
def ctrStart
    (dest : Nat → Byte)
    (position : Nat)
    (state : AesState) : CtrState where
  i := 0
  generated := 0
  output := fun _ => 0
  dest := dest
  position := position
  state := state
  acquisitions := []
  encryptions := []

/-- `rdrand_get_bytes_aes_ctr`, with its destination. -/
def rdrandGetBytesAesCtrInto
    (dest : Nat → Byte)
    (count position : Nat)
    (state : AesState) : CtrState :=
  (ctrBody ssl device buffer retryLimit count
    (ctrStart dest position state)).state

/-- The bytes that `rdrand_get_bytes_retry` leaves in the array `buf`. -/
def StackBuffer.filled (size position : Nat) (fill : Fill) : List Byte :=
  (CellMemory.window (fill.applyTo (buffer.before position))
    buffer.address size).map Cell.value

/--
The calls for chunks of these sizes, from a device position and a state to
others.  Each chunk is charged and then asked of the device.  One that comes
complete is encrypted once: it is xored with the keystream of the context that
the charge leaves.  The first chunk that comes short, or that the cipher
refuses, is the last one.
-/
inductive ChunkCalls :
    List Nat → Nat → AesState →
      List ChunkAcquisition → List PayloadCall → Nat → AesState →
        Prop where
  | nothing
      {position : Nat}
      {state : AesState} :
      ChunkCalls [] position state [] [] position state
  | short
      {size position : Nat}
      {rest : List Nat}
      {state : AesState}
      {fill : Fill}
      (asked :
        rdrandGetBytesRetry device buffer.address size retryLimit
            position =
          fill)
      (incomplete : fill.generated ≠ size) :
      ChunkCalls (size :: rest) position state
        [{ size := size
           position := position
           acquired := { bytes := none, position := fill.position } }]
        []
        fill.position (counter ssl size state).state
  | refused
      {size position : Nat}
      {rest : List Nat}
      {state ready : AesState}
      {fill : Fill}
      {bytes : List Byte}
      (charged : (counter ssl size state).state = ready)
      (asked :
        rdrandGetBytesRetry device buffer.address size retryLimit
            position =
          fill)
      (complete : fill.generated = size)
      (filled : buffer.filled size position fill = bytes)
      (refuses :
        ready.cfg.en.keyed = none ∨
          ssl.encryptOk ready.encryptCalls = false) :
      ChunkCalls (size :: rest) position state
        [{ size := size
           position := position
           acquired :=
             { bytes := some bytes, position := fill.position } }]
        [{ before := ready, input := bytes, output := none }]
        fill.position
        { ready with encryptCalls := ready.encryptCalls + 1 }
  | encrypted
      {size position final : Nat}
      {rest : List Nat}
      {state ready after : AesState}
      {fill : Fill}
      {bytes key nonce : List Byte}
      {acquisitions : List ChunkAcquisition}
      {encryptions : List PayloadCall}
      (charged : (counter ssl size state).state = ready)
      (asked :
        rdrandGetBytesRetry device buffer.address size retryLimit
            position =
          fill)
      (complete : fill.generated = size)
      (filled : buffer.filled size position fill = bytes)
      (keyed : ready.cfg.en.keyed = some (key, nonce))
      (succeeds : ssl.encryptOk ready.encryptCalls = true)
      (later :
        ChunkCalls rest fill.position
          { ready with
            encryptCalls := ready.encryptCalls + 1
            cfg :=
              { ready.cfg with en := ready.cfg.en.advance size }
            log := ready.log ++ [.payload size] }
          acquisitions encryptions final after) :
      ChunkCalls (size :: rest) position state
        ({ size := size
           position := position
           acquired :=
             { bytes := some bytes, position := fill.position } } ::
          acquisitions)
        ({ before := ready
           input := bytes
           output :=
             some
               (CounterMode.apply (ssl.keystream key nonce)
                 ready.cfg.en.used bytes) } ::
          encryptions)
        final after

/-- An acquired chunk consists of as many bytes of the device as asked for. -/
def ChunkAcquisition.Whole (acquisition : ChunkAcquisition) : Prop :=
  ∀ bytes,
    acquisition.acquired.bytes = some bytes →
    bytes.length = acquisition.size ∧
      ∃ cells : List Cell,
        bytes = cells.map Cell.value ∧
          ∀ cell ∈ cells,
            cell.FromDevice device acquisition.position

end Call

section Acquisition

variable
  {device : Device}
  {buffer : StackBuffer}
  {retryLimit : Int}
  {size position : Nat}

/-- An acquisition that comes short. -/
theorem acquireBuffer_short
    (short :
      (acquireBuffer device buffer retryLimit size position).bytes =
        none) :
    acquireBuffer device buffer retryLimit size position =
        { bytes := none
          position :=
            (rdrandGetBytesRetry device buffer.address size retryLimit
              position).position } ∧
      (rdrandGetBytesRetry device buffer.address size retryLimit
        position).generated ≠ size := by
  refine ⟨congrArg (Acquired.mk · _) short, ?_⟩
  simp only [acquireBuffer] at short
  split at short
  · assumption
  · cases short

/-- An acquisition that is complete, and what it has filled. -/
theorem acquireBuffer_complete
    {bytes : List Byte}
    (acquired :
      (acquireBuffer device buffer retryLimit size position).bytes =
        some bytes) :
    acquireBuffer device buffer retryLimit size position =
        { bytes := some bytes
          position :=
            (rdrandGetBytesRetry device buffer.address size retryLimit
              position).position } ∧
      (rdrandGetBytesRetry device buffer.address size retryLimit
          position).generated = size ∧
        buffer.filled size position
            (rdrandGetBytesRetry device buffer.address size retryLimit
              position) =
          bytes := by
  refine ⟨congrArg (Acquired.mk · _) acquired, ?_⟩
  simp only [acquireBuffer] at acquired
  split at acquired
  · cases acquired
  · next complete =>
      exact ⟨Decidable.not_not.mp complete, Option.some.inj acquired⟩

/-- No byte of a filled chunk is one that the array held before. -/
theorem StackBuffer.filled_fromDevice
    (small : size < uintModulus)
    {fill : Fill}
    (asked :
      rdrandGetBytesRetry device buffer.address size retryLimit position =
        fill)
    (complete : fill.generated = size) :
    ∃ cells : List Cell,
      buffer.filled size position fill = cells.map Cell.value ∧
        ∀ cell ∈ cells, cell.FromDevice device position := by
  refine ⟨_, rfl, ?_⟩
  intro cell member
  obtain ⟨index, inside, rfl⟩ := CellMemory.mem_window.mp member
  have sound :=
    rdrandGetBytesRetry_sound device buffer.address small retryLimit
      position
  rw [asked] at sound
  refine sound.applyTo_covered _ ?_
  exact sound.complete complete _ (Nat.le_add_right _ _) (by omega)

@[simp] theorem StackBuffer.filled_length (fill : Fill) :
    (buffer.filled size position fill).length = size := by
  simp [StackBuffer.filled]

end Acquisition

section Sequences

variable
  {ssl : OpenSsl}
  {device : Device}
  {buffer : StackBuffer}
  {retryLimit : Int}
  {sizes : List Nat}
  {position final : Nat}
  {state after : AesState}
  {acquisitions : List ChunkAcquisition}
  {encryptions : List PayloadCall}

/-- The chunks that are asked for come in order. -/
theorem ChunkCalls.sizes_isPrefix
    (calls :
      ChunkCalls ssl device buffer retryLimit sizes position state
        acquisitions encryptions final after) :
    acquisitions.map ChunkAcquisition.size <+: sizes := by
  induction calls with
  | nothing =>
      exact List.prefix_rfl
  | short asked incomplete =>
      exact List.prefix_append [_] _
  | refused charged asked complete filled refuses =>
      exact List.prefix_append [_] _
  | encrypted charged asked complete filled keyed succeeds later
      inductionHypothesis =>
      rw [List.map_cons]
      exact (List.prefix_cons_inj _).mpr inductionHypothesis

/-- Each complete chunk is encrypted, and nothing else is. -/
theorem ChunkCalls.once
    (calls :
      ChunkCalls ssl device buffer retryLimit sizes position state
        acquisitions encryptions final after) :
    encryptions.map PayloadCall.input =
      acquisitions.filterMap fun acquisition =>
        acquisition.acquired.bytes := by
  induction calls with
  | nothing =>
      rfl
  | short asked incomplete =>
      rfl
  | refused charged asked complete filled refuses =>
      rfl
  | encrypted charged asked complete filled keyed succeeds later
      inductionHypothesis =>
      rw [List.map_cons, List.filterMap_cons, inductionHypothesis]

/-- What is acquired consists of bytes of the device. -/
theorem ChunkCalls.whole
    (calls :
      ChunkCalls ssl device buffer retryLimit sizes position state
        acquisitions encryptions final after)
    (bounded : ∀ size ∈ sizes, size ≤ maxBufferSize) :
    ∀ acquisition ∈ acquisitions, acquisition.Whole device := by
  have small :
      ∀ {size : Nat}, size ≤ maxBufferSize → size < uintModulus :=
    fun atMost => Nat.lt_of_le_of_lt atMost (by decide)
  induction calls with
  | nothing =>
      exact nofun
  | short asked incomplete =>
      intro acquisition member bytes acquired
      rw [List.mem_singleton.mp member] at acquired
      cases acquired
  | refused charged asked complete filled refuses =>
      intro acquisition member bytes acquired
      rw [List.mem_singleton.mp member] at acquired ⊢
      cases acquired
      subst filled
      exact
        ⟨StackBuffer.filled_length _,
          StackBuffer.filled_fromDevice
            (small (bounded _ List.mem_cons_self)) asked complete⟩
  | encrypted charged asked complete filled keyed succeeds later
      inductionHypothesis =>
      intro acquisition member
      rcases List.mem_cons.mp member with rfl | inLater
      · intro bytes acquired
        cases acquired
        subst filled
        exact
          ⟨StackBuffer.filled_length _,
            StackBuffer.filled_fromDevice
              (small (bounded _ List.mem_cons_self)) asked complete⟩
      · exact
          inductionHypothesis
            (fun size inRest =>
              bounded size (List.mem_cons_of_mem _ inRest))
            acquisition inLater

end Sequences

section Passes

variable
  {ssl : OpenSsl}
  {device : Device}
  {buffer : StackBuffer}
  {retryLimit : Int}
  {dest : Nat → Byte}

/-- What a chunk that is copied has gone through. -/
theorem ctrChunk_again
    {size : Nat}
    {ctr next : CtrState}
    (again : ctrChunk ssl device buffer retryLimit size ctr = .again next) :
    ∃ bytes produced,
      (acquireBuffer device buffer retryLimit size
          ctr.position).bytes = some bytes ∧
        (encryptPayload ssl bytes
            (counter ssl size ctr.state).state).output =
          some produced ∧
        next =
          ((ctr.acquire ssl device buffer retryLimit size).encrypt
            ssl bytes).copy size produced := by
  simp only [ctrChunk] at again
  split at again
  · cases again
  · next bytes acquired =>
      split at again
      · cases again
      · next produced made =>
          cases again
          exact ⟨bytes, produced, acquired, made, rfl⟩

/-- How a chunk that is not copied has failed. -/
theorem ctrChunk_leave
    {size : Nat}
    {ctr final : CtrState}
    {exit : CtrExit}
    (leave :
      ctrChunk ssl device buffer retryLimit size ctr =
        .leave exit final) :
    ((acquireBuffer device buffer retryLimit size
          ctr.position).bytes = none ∧
        final = ctr.acquire ssl device buffer retryLimit size) ∨
      ∃ bytes,
        (acquireBuffer device buffer retryLimit size
            ctr.position).bytes = some bytes ∧
          (encryptPayload ssl bytes
              (counter ssl size ctr.state).state).output =
            none ∧
          final =
            (ctr.acquire ssl device buffer retryLimit size).encrypt
              ssl bytes := by
  simp only [ctrChunk] at leave
  split at leave
  · next short =>
      cases leave
      exact .inl ⟨short, rfl⟩
  · next bytes acquired =>
      split at leave
      · next failed =>
          cases leave
          exact .inr ⟨bytes, acquired, failed, rfl⟩
      · cases leave

/-- A front of `dest` holds what has been encrypted, and only that is new. -/
structure CtrState.Stored (dest : Nat → Byte) (ctr : CtrState) : Prop where
  amount : ctr.generated = ctr.ciphertext.length
  contents : ctr.dest = CellMemory.store dest 0 ctr.ciphertext

section Chunk

variable {ctr : CtrState}

/-- A chunk that is not copied leaves the destination as it was. -/
theorem CtrState.Stored.leave
    (stored : ctr.Stored dest)
    {size : Nat}
    {exit : CtrExit}
    {final : CtrState}
    (leave :
      ctrChunk ssl device buffer retryLimit size ctr =
        .leave exit final) :
    final.Stored dest := by
  rcases ctrChunk_leave leave with
    ⟨short, rfl⟩ | ⟨bytes, acquired, failed, rfl⟩
  · exact ⟨stored.amount, stored.contents⟩
  · have unchanged :
        ((ctr.acquire ssl device buffer retryLimit size).encrypt
          ssl bytes).ciphertext = ctr.ciphertext := by
      simp [CtrState.ciphertext, CtrState.encrypt, CtrState.acquire,
        failed]
    refine ⟨?_, ?_⟩
    · rw [unchanged]
      exact stored.amount
    · rw [unchanged]
      exact stored.contents

/-- A copied chunk is appended to what is in `dest`. -/
theorem CtrState.Stored.copied
    (stored : ctr.Stored dest)
    (place : ctr.i * maxBufferSize = ctr.generated)
    {size : Nat}
    (fits : ctr.generated + size < uintModulus)
    {bytes produced : List Byte}
    (acquired :
      (acquireBuffer device buffer retryLimit size
        ctr.position).bytes = some bytes)
    (done :
      (encryptPayload ssl bytes
        (counter ssl size ctr.state).state).output = some produced) :
    (((ctr.acquire ssl device buffer retryLimit size).encrypt
      ssl bytes).copy size produced).Stored dest := by
  have length : produced.length = size := by
    rw [CipherContext.output_length (encryptPayload_made done),
      acquireBuffer_length acquired]
  have longer :
      (((ctr.acquire ssl device buffer retryLimit size).encrypt
        ssl bytes).copy size produced).ciphertext =
        ctr.ciphertext ++ produced := by
    simp [CtrState.ciphertext, CtrState.copy, CtrState.encrypt,
      CtrState.acquire, done]
  refine ⟨?_, ?_⟩
  · rw [longer, List.length_append, length, ← stored.amount]
    exact Nat.mod_eq_of_lt fits
  · have copied :
        CellMemory.window
            (CellMemory.store
              ((ctr.acquire ssl device buffer retryLimit size).encrypt
                ssl bytes).output 0 produced) 0 size =
          produced := by
      rw [← length]
      exact CellMemory.window_store _ 0 produced
    have address :
        ctr.i * maxBufferSize % uintModulus =
          0 + ctr.ciphertext.length := by
      rw [place, ← stored.amount, Nat.zero_add]
      exact Nat.mod_eq_of_lt (by omega)
    rw [longer, ← CellMemory.store_append, ← stored.contents, ← address]
    exact
      congrArg
        (CellMemory.store ctr.dest
          (ctr.i * maxBufferSize % uintModulus))
        copied

/-- A chunk that is copied, and what has been copied so far. -/
theorem ctrChunk_copies
    (stored : ctr.Stored dest)
    (unfailed : ctr.Unfailed)
    (place : ctr.i * maxBufferSize = ctr.generated)
    {size : Nat}
    (fits : ctr.generated + size < uintModulus)
    {next : CtrState}
    (again : ctrChunk ssl device buffer retryLimit size ctr = .again next) :
    next.Stored dest ∧
      next.Unfailed ∧
      next.i = ctr.i ∧
      next.generated = ctr.generated + size := by
  obtain ⟨bytes, produced, acquired, done, rfl⟩ := ctrChunk_again again
  refine
    ⟨stored.copied place fits acquired done, ⟨?_, ?_⟩, rfl,
      Nat.mod_eq_of_lt fits⟩
  · intro acquisition member
    rcases List.mem_append.mp member with earlier | last
    · exact unfailed.1 acquisition earlier
    · rw [List.mem_singleton.mp last]
      simp [acquired]
  · intro call member
    rcases List.mem_append.mp member with earlier | last
    · exact unfailed.2 call earlier
    · rw [List.mem_singleton.mp last]
      simp [CtrState.acquire, done]

/-- A chunk that fails leaves the amount, and is on record as failed. -/
theorem ctrChunk_stops
    {size : Nat}
    {exit : CtrExit}
    {final : CtrState}
    (leave :
      ctrChunk ssl device buffer retryLimit size ctr =
        .leave exit final) :
    final.generated = ctr.generated ∧ ¬final.Unfailed := by
  rcases ctrChunk_leave leave with
    ⟨short, rfl⟩ | ⟨bytes, acquired, failed, rfl⟩
  · refine ⟨rfl, ?_⟩
    intro unfailed
    have served :=
      unfailed.1 _ (List.mem_append_right _ List.mem_cons_self)
    rw [short] at served
    cases served
  · refine ⟨rfl, ?_⟩
    intro unfailed
    have served :=
      unfailed.2 _ (List.mem_append_right _ List.mem_cons_self)
    have impossible :
        (encryptPayload ssl bytes
          (counter ssl size ctr.state).state).output.isSome :=
      served
    rw [failed] at impossible
    cases impossible

/-- A full chunk that is copied, and the counter of the loop after it. -/
theorem ctrChunk_copies_next
    (stored : ctr.Stored dest)
    (unfailed : ctr.Unfailed)
    (place : ctr.i * maxBufferSize = ctr.generated)
    (fits : ctr.generated + maxBufferSize < uintModulus)
    {next : CtrState}
    (again :
      ctrChunk ssl device buffer retryLimit maxBufferSize ctr =
        .again next) :
    next.nextChunk.Stored dest ∧
      next.nextChunk.Unfailed ∧
      next.nextChunk.i * maxBufferSize = next.nextChunk.generated ∧
      next.nextChunk.generated = ctr.generated + maxBufferSize := by
  obtain ⟨nextStored, nextUnfailed, sameIndex, amount⟩ :=
    ctrChunk_copies stored unfailed place fits again
  refine
    ⟨⟨nextStored.amount, nextStored.contents⟩, nextUnfailed, ?_, amount⟩
  change
    (next.i + 1) % uintModulus * maxBufferSize = next.generated
  have small : next.i + 1 < uintModulus := by
    unfold maxBufferSize at *
    omega
  rw [Nat.mod_eq_of_lt small, sameIndex, amount, Nat.succ_mul, place]

/-- The full chunks that are left, where all of them are copied. -/
theorem ctrFullChunks_copies
    (stored : ctr.Stored dest)
    (unfailed : ctr.Unfailed)
    (place : ctr.i * maxBufferSize = ctr.generated)
    {remaining : Nat}
    (fits : ctr.generated + remaining * maxBufferSize < uintModulus)
    {full : CtrState}
    (again :
      ctrFullChunks ssl device buffer retryLimit remaining ctr =
        .again full) :
    full.Stored dest ∧
      full.Unfailed ∧
      full.i * maxBufferSize = full.generated ∧
      full.generated = ctr.generated + remaining * maxBufferSize := by
  induction remaining generalizing ctr with
  | zero =>
      cases again
      exact ⟨stored, unfailed, place, by rw [Nat.zero_mul, Nat.add_zero]⟩
  | succ remaining inductionHypothesis =>
      rw [Nat.succ_mul] at fits
      simp only [ctrFullChunks] at again
      split at again
      · cases again
      · next chunk =>
          obtain ⟨nextStored, nextUnfailed, nextPlace, amount⟩ :=
            ctrChunk_copies_next stored unfailed place (by omega) chunk
          obtain ⟨fullStored, fullUnfailed, fullPlace, total⟩ :=
            inductionHypothesis nextStored nextUnfailed nextPlace
              (by omega) again
          refine ⟨fullStored, fullUnfailed, fullPlace, ?_⟩
          rw [total, amount, Nat.succ_mul]
          omega

/-- The full chunks that are left, where one of them fails. -/
theorem ctrFullChunks_stops
    (stored : ctr.Stored dest)
    (unfailed : ctr.Unfailed)
    (place : ctr.i * maxBufferSize = ctr.generated)
    {remaining : Nat}
    (fits : ctr.generated + remaining * maxBufferSize < uintModulus)
    {exit : CtrExit}
    {final : CtrState}
    (leave :
      ctrFullChunks ssl device buffer retryLimit remaining ctr =
        .leave exit final) :
    final.Stored dest ∧
      ¬final.Unfailed ∧
      ∃ fewer,
        fewer < remaining ∧
          final.generated = ctr.generated + fewer * maxBufferSize := by
  induction remaining generalizing ctr with
  | zero =>
      cases leave
  | succ remaining inductionHypothesis =>
      rw [Nat.succ_mul] at fits
      simp only [ctrFullChunks] at leave
      split at leave
      · next chunk =>
          cases leave
          obtain ⟨amount, failed⟩ := ctrChunk_stops chunk
          refine
            ⟨stored.leave chunk, failed, 0, Nat.succ_pos remaining, ?_⟩
          rw [amount, Nat.zero_mul, Nat.add_zero]
      · next chunk =>
          obtain ⟨nextStored, nextUnfailed, nextPlace, amount⟩ :=
            ctrChunk_copies_next stored unfailed place (by omega) chunk
          obtain ⟨finalStored, failed, fewer, below, total⟩ :=
            inductionHypothesis nextStored nextUnfailed nextPlace
              (by omega) leave
          refine
            ⟨finalStored, failed, fewer + 1, Nat.succ_lt_succ below, ?_⟩
          rw [total, amount, Nat.succ_mul]
          omega

end Chunk

variable {position : Nat} {state : AesState}

/-- Nothing has been done before the first chunk. -/
theorem ctrStart_stored : (ctrStart dest position state).Stored dest :=
  ⟨rfl, (CellMemory.store_nil dest 0).symm⟩

theorem ctrStart_unfailed : (ctrStart dest position state).Unfailed :=
  ⟨nofun, nofun⟩

/--
What relates chunks that are left to the variables before and after them, and
is kept by a chunk that fails, by one that is copied and by the counter of the
loop, relates all the chunks to the variables before and after the body.
-/
theorem ctrBody_rule
    (relates : List Nat → CtrState → CtrState → Prop)
    (nothing : ∀ ctr, relates [] ctr ctr)
    (stops :
      ∀ {size ctr exit final},
        ctrChunk ssl device buffer retryLimit size ctr =
          .leave exit final →
        ∀ rest, relates (size :: rest) ctr final)
    (copies :
      ∀ {size ctr next},
        ctrChunk ssl device buffer retryLimit size ctr = .again next →
        ∀ {rest final},
          relates rest next final →
          relates (size :: rest) ctr final)
    (counts :
      ∀ {rest ctr final},
        relates rest ctr.nextChunk final →
        relates rest ctr final)
    (count : Nat)
    (ctr : CtrState) :
    relates (chunkSizes count) ctr
      (ctrBody ssl device buffer retryLimit count ctr).state := by
  have tail :
      ∀ full : CtrState,
        relates
          (if count % maxBufferSize ≠ 0 then
            [count % maxBufferSize]
          else
            [])
          full
          (if count % maxBufferSize ≠ 0 then
            ctrChunk ssl device buffer retryLimit
              (count % maxBufferSize) full
          else
            Pass.again full).state := by
    intro full
    split
    · cases chunk :
          ctrChunk ssl device buffer retryLimit
            (count % maxBufferSize) full with
      | leave exit final =>
          exact stops chunk []
      | again next =>
          exact copies chunk (nothing next)
    · exact nothing full
  unfold chunkSizes ctrBody
  generalize count / maxBufferSize = remaining
  induction remaining generalizing ctr with
  | zero =>
      exact tail ctr
  | succ remaining inductionHypothesis =>
      rw [List.replicate_succ, List.cons_append]
      simp only [ctrFullChunks]
      cases chunk :
          ctrChunk ssl device buffer retryLimit maxBufferSize ctr with
      | leave exit final =>
          exact stops chunk _
      | again next =>
          exact copies chunk (counts (inductionHypothesis next.nextChunk))

/-- Some passes add the calls for these chunks to the variables. -/
structure CtrState.Calls
    (ssl : OpenSsl)
    (device : Device)
    (buffer : StackBuffer)
    (retryLimit : Int)
    (sizes : List Nat)
    (ctr final : CtrState)
    (acquisitions : List ChunkAcquisition)
    (encryptions : List PayloadCall) : Prop where
  acquired : final.acquisitions = ctr.acquisitions ++ acquisitions
  encrypted : final.encryptions = ctr.encryptions ++ encryptions
  calls :
    ChunkCalls ssl device buffer retryLimit sizes ctr.position ctr.state
      acquisitions encryptions final.position final.state

/-- A chunk that fails is the last one for which calls are made. -/
theorem ctrChunk_leave_calls
    {size : Nat}
    {ctr final : CtrState}
    {exit : CtrExit}
    (leave :
      ctrChunk ssl device buffer retryLimit size ctr = .leave exit final)
    (rest : List Nat) :
    ∃ acquisitions encryptions,
      CtrState.Calls ssl device buffer retryLimit (size :: rest) ctr final
        acquisitions encryptions := by
  rcases ctrChunk_leave leave with
    ⟨short, rfl⟩ | ⟨bytes, acquired, failed, rfl⟩
  · obtain ⟨result, incomplete⟩ := acquireBuffer_short short
    refine
      ⟨[{ size := size
          position := ctr.position
          acquired :=
            acquireBuffer device buffer retryLimit size ctr.position }],
        [], rfl, (List.append_nil _).symm, ?_⟩
    rw [result]
    exact .short rfl incomplete
  · obtain ⟨result, complete, filled⟩ := acquireBuffer_complete acquired
    obtain ⟨refuses, after⟩ := encryptPayload_refused ssl failed
    refine
      ⟨[{ size := size
          position := ctr.position
          acquired :=
            acquireBuffer device buffer retryLimit size ctr.position }],
        [{ before := (counter ssl size ctr.state).state
           input := bytes
           output :=
             (encryptPayload ssl bytes
               (counter ssl size ctr.state).state).output }],
        rfl, rfl, ?_⟩
    have state :
        ((ctr.acquire ssl device buffer retryLimit size).encrypt
            ssl bytes).state =
          { (counter ssl size ctr.state).state with
            encryptCalls :=
              (counter ssl size ctr.state).state.encryptCalls + 1 } :=
      after
    rw [result, failed, state]
    exact .refused rfl rfl complete filled refuses

/-- The calls for a chunk that is copied, and those for the rest. -/
theorem ctrChunk_again_calls
    {size : Nat}
    {ctr next : CtrState}
    (again : ctrChunk ssl device buffer retryLimit size ctr = .again next)
    {rest : List Nat}
    {final : CtrState}
    (later :
      ∃ acquisitions encryptions,
        CtrState.Calls ssl device buffer retryLimit rest next final
          acquisitions encryptions) :
    ∃ acquisitions encryptions,
      CtrState.Calls ssl device buffer retryLimit (size :: rest) ctr final
        acquisitions encryptions := by
  obtain ⟨bytes, produced, acquired, done, rfl⟩ := ctrChunk_again again
  obtain ⟨acquisitions, encryptions, inOrder, encrypted, calls⟩ := later
  obtain ⟨result, complete, filled⟩ := acquireBuffer_complete acquired
  obtain ⟨key, nonce, keyed, succeeds, rfl, after⟩ :=
    encryptPayload_encrypted ssl done
  refine
    ⟨{ size := size
       position := ctr.position
       acquired :=
         acquireBuffer device buffer retryLimit size ctr.position } ::
        acquisitions,
      { before := (counter ssl size ctr.state).state
        input := bytes
        output :=
          (encryptPayload ssl bytes
            (counter ssl size ctr.state).state).output } ::
        encryptions,
      ?_, ?_, ?_⟩
  · exact inOrder.trans (List.append_assoc _ [_] _)
  · exact encrypted.trans (List.append_assoc _ [_] _)
  · rw [result, done]
    refine .encrypted rfl rfl complete filled keyed succeeds ?_
    have length : bytes.length = size := acquireBuffer_length acquired
    rw [length] at after
    rw [← after]
    exact calls

/-- `rdrand_get_bytes_aes_ctr` makes the calls for its chunks. -/
theorem rdrandGetBytesAesCtrInto_calls
    (dest : Nat → Byte)
    (count : Nat) :
    ChunkCalls ssl device buffer retryLimit (chunkSizes count)
      position state
      (rdrandGetBytesAesCtrInto ssl device buffer retryLimit dest count
        position state).acquisitions
      (rdrandGetBytesAesCtrInto ssl device buffer retryLimit dest count
        position state).encryptions
      (rdrandGetBytesAesCtrInto ssl device buffer retryLimit dest count
        position state).position
      (rdrandGetBytesAesCtrInto ssl device buffer retryLimit dest count
        position state).state := by
  have body :=
    ctrBody_rule
      (fun sizes ctr final =>
        ∃ acquisitions encryptions,
          CtrState.Calls ssl device buffer retryLimit sizes ctr final
            acquisitions encryptions)
      (fun ctr =>
        ⟨[], [], (List.append_nil _).symm, (List.append_nil _).symm,
          .nothing⟩)
      ctrChunk_leave_calls
      (fun again _ _ later => ctrChunk_again_calls again later)
      (fun ⟨_, _, inOrder, encrypted, calls⟩ =>
        ⟨_, _, inOrder, encrypted, calls⟩)
      count (ctrStart dest position state)
  obtain ⟨acquisitions, encryptions, inOrder, encrypted, calls⟩ := body
  have allAcquired := inOrder.trans (List.nil_append acquisitions)
  have allEncrypted := encrypted.trans (List.nil_append encryptions)
  rw [← allAcquired, ← allEncrypted] at calls
  exact calls

end Passes

/--
What `rdrand_get_bytes_aes_ctr` promises: the amount, the chunks it acquires
and encrypts, and what becomes of the destination.
-/
structure CtrLaw
    (ssl : OpenSsl)
    (device : Device)
    (buffer : StackBuffer)
    (retryLimit : Int)
    (dest : Nat → Byte)
    (count position : Nat)
    (state : AesState)
    (ctr : CtrState) : Prop where
  amount :
    ctr.generated = count ∨
      maxBufferSize ∣ ctr.generated ∧ ctr.generated < count
  sizes :
    ctr.acquisitions.map ChunkAcquisition.size <+: chunkSizes count
  calls :
    ChunkCalls ssl device buffer retryLimit (chunkSizes count)
      position state ctr.acquisitions ctr.encryptions ctr.position
      ctr.state
  whole : ∀ acquisition ∈ ctr.acquisitions, acquisition.Whole device
  once :
    ctr.encryptions.map PayloadCall.input =
      ctr.acquisitions.filterMap fun acquisition =>
        acquisition.acquired.bytes
  contents :
    CellMemory.window ctr.dest 0 ctr.generated = ctr.ciphertext
  unchanged :
    ∀ index, ctr.generated ≤ index → ctr.dest index = dest index
  complete : ctr.generated = count ↔ ctr.Unfailed

section Law

variable
  {ssl : OpenSsl}
  {device : Device}
  {buffer : StackBuffer}
  {retryLimit : Int}
  {dest : Nat → Byte}
  {count position : Nat}
  {state : AesState}

/-- How far the body gets, and that it gets there unless something fails. -/
structure CtrState.Reaches (count : Nat) (ctr : CtrState) : Prop where
  amount :
    ctr.generated = count ∨
      maxBufferSize ∣ ctr.generated ∧ ctr.generated < count
  complete : ctr.generated = count ↔ ctr.Unfailed

/-- A body that leaves after some full chunks. -/
theorem CtrState.Reaches.stopped
    {ctr : CtrState}
    {chunks : Nat}
    (amount : ctr.generated = chunks * maxBufferSize)
    (fewer : chunks * maxBufferSize < count)
    (failed : ¬ctr.Unfailed) :
    ctr.Reaches count where
  amount := by
    rw [amount]
    exact .inr ⟨Nat.dvd_mul_left _ _, fewer⟩
  complete := by
    refine iff_of_false ?_ failed
    rw [amount]
    exact Nat.ne_of_lt fewer

/-- The amount of the full chunks, and of the tail. -/
theorem ctrBody_reaches
    (fits : count < uintModulus) :
    (ctrBody ssl device buffer retryLimit count
        (ctrStart dest position state)).state.Stored dest ∧
      (ctrBody ssl device buffer retryLimit count
        (ctrStart dest position state)).state.Reaches count := by
  have parts := Nat.div_add_mod count maxBufferSize
  rw [Nat.mul_comm] at parts
  have room :
      (ctrStart dest position state).generated +
          count / maxBufferSize * maxBufferSize <
        uintModulus := by
    simp only [ctrStart]
    omega
  unfold ctrBody
  cases chunks :
      ctrFullChunks ssl device buffer retryLimit
        (count / maxBufferSize) (ctrStart dest position state) with
  | leave exit final =>
      obtain ⟨stored, failed, fewer, below, amount⟩ :=
        ctrFullChunks_stops ctrStart_stored ctrStart_unfailed
          (Nat.zero_mul maxBufferSize) room chunks
      have atMost :
          (fewer + 1) * maxBufferSize ≤
            count / maxBufferSize * maxBufferSize :=
        Nat.mul_le_mul_right _ below
      rw [Nat.succ_mul] at atMost
      have positive : 0 < maxBufferSize := by
        decide
      have copied : final.generated = fewer * maxBufferSize := by
        rw [amount]
        exact Nat.zero_add _
      exact ⟨stored, .stopped copied (by omega) failed⟩
  | again full =>
      obtain ⟨stored, unfailed, place, total⟩ :=
        ctrFullChunks_copies ctrStart_stored ctrStart_unfailed
          (Nat.zero_mul maxBufferSize) room chunks
      have amount :
          full.generated = count / maxBufferSize * maxBufferSize :=
        total.trans (Nat.zero_add _)
      simp only
      split
      · next tail =>
          cases last :
              ctrChunk ssl device buffer retryLimit
                (count % maxBufferSize) full with
          | leave exit final =>
              obtain ⟨same, failed⟩ := ctrChunk_stops last
              refine
                ⟨stored.leave last,
                  .stopped (same.trans amount) (by omega) failed⟩
          | again final =>
              obtain ⟨finalStored, finalUnfailed, _, finalTotal⟩ :=
                ctrChunk_copies stored unfailed place (by omega) last
              have whole : final.generated = count := by
                rw [finalTotal, amount, parts]
              exact
                ⟨finalStored, .inl whole, iff_of_true whole finalUnfailed⟩
      · next noTail =>
          have whole : full.generated = count := by
            omega
          exact ⟨stored, .inl whole, iff_of_true whole unfailed⟩

/--
`rdrand_get_bytes_aes_ctr` copies the ciphertexts of the chunks it acquires to
the front of its destination, and returns how far they reach.
-/
theorem rdrandGetBytesAesCtr_law
    (ssl : OpenSsl)
    (device : Device)
    (buffer : StackBuffer)
    (retryLimit : Int)
    (dest : Nat → Byte)
    {count : Nat}
    (fits : count < uintModulus)
    (position : Nat)
    (state : AesState) :
    CtrLaw ssl device buffer retryLimit dest count position state
      (rdrandGetBytesAesCtrInto ssl device buffer retryLimit dest count
        position state) := by
  obtain ⟨stored, reaches⟩ :
      (rdrandGetBytesAesCtrInto ssl device buffer retryLimit dest count
          position state).Stored dest ∧
        (rdrandGetBytesAesCtrInto ssl device buffer retryLimit dest count
          position state).Reaches count :=
    ctrBody_reaches fits
  have calls :
      ChunkCalls ssl device buffer retryLimit (chunkSizes count)
        position state _ _ _ _ :=
    rdrandGetBytesAesCtrInto_calls dest count
  refine
    { amount := reaches.amount
      sizes := calls.sizes_isPrefix
      calls := calls
      whole := calls.whole (chunkSizes_le count)
      once := calls.once
      contents := ?_
      unchanged := ?_
      complete := reaches.complete }
  · rw [stored.amount, stored.contents]
    exact CellMemory.window_store _ 0 _
  · intro index past
    rw [stored.contents]
    apply CellMemory.store_above
    rw [← stored.amount]
    omega

end Law

/--
Two full chunks and a half one, each of them acquired and encrypted, into a
zeroed destination.
-/
theorem rdrandGetBytesAesCtr_law_twoKeys :
    let ctr :=
      rdrandGetBytesAesCtrInto .sample (.lateBy 3) .zeroed 10
        (fun _ => 0) 5120 0 (twoKeys .sample)
    CtrLaw .sample (.lateBy 3) .zeroed 10 (fun _ => 0) 5120 0
        (twoKeys .sample) ctr ∧
      ctr.generated = 5120 ∧
      ctr.acquisitions.length = 3 ∧
      ctr.encryptions.length = 3 := by
  refine
    ⟨rdrandGetBytesAesCtr_law .sample (.lateBy 3) .zeroed 10
      (fun _ => 0) (by decide) 0 (twoKeys .sample), ?_⟩
  decide +kernel

/-- Some passes add to the variables what a sequence of chunks results in. -/
structure CtrState.Follows
    (ctr : CtrState)
    (result : CtrResult)
    (final : CtrState) : Prop where
  ciphertext : final.ciphertext = ctr.ciphertext ++ result.written
  acquisitions :
    (final.acquisitions.map fun acquisition =>
        acquisition.acquired.bytes) =
      (ctr.acquisitions.map fun acquisition =>
          acquisition.acquired.bytes) ++
        result.acquisitions
  position : final.position = result.position
  state : final.state = result.state

section Result

variable
  {ssl : OpenSsl}
  {device : Device}
  {buffer : StackBuffer}
  {retryLimit : Int}
  {ctr : CtrState}

/-- A chunk that fails ends the sequence. -/
theorem ctrChunk_leave_follows
    {size : Nat}
    {exit : CtrExit}
    {final : CtrState}
    (leave :
      ctrChunk ssl device buffer retryLimit size ctr =
        .leave exit final)
    (rest : List Nat) :
    ctr.Follows
      (ctrChunks ssl (acquireBuffer device buffer retryLimit)
        (size :: rest) ctr.position ctr.state)
      final := by
  rcases ctrChunk_leave leave with
    ⟨short, rfl⟩ | ⟨bytes, acquired, failed, rfl⟩
  · rw [ctrChunks_short short]
    refine ⟨?_, ?_, rfl, rfl⟩
    · simp [CtrState.ciphertext, CtrState.acquire]
    · simp [CtrState.acquire, short]
  · rw [ctrChunks_failed acquired failed]
    refine ⟨?_, ?_, rfl, rfl⟩
    · simp [CtrState.ciphertext, CtrState.encrypt, CtrState.acquire,
        failed]
    · simp [CtrState.encrypt, CtrState.acquire, acquired]

/-- A chunk that is copied is followed by the rest of the sequence. -/
theorem ctrChunk_again_follows
    {size : Nat}
    {next : CtrState}
    (again : ctrChunk ssl device buffer retryLimit size ctr = .again next)
    {rest : List Nat}
    {final : CtrState}
    (later :
      next.Follows
        (ctrChunks ssl (acquireBuffer device buffer retryLimit) rest
          next.position next.state)
        final) :
    ctr.Follows
      (ctrChunks ssl (acquireBuffer device buffer retryLimit)
        (size :: rest) ctr.position ctr.state)
      final := by
  obtain ⟨bytes, produced, acquired, done, rfl⟩ := ctrChunk_again again
  rw [ctrChunks_done acquired done]
  refine ⟨?_, ?_, later.position, later.state⟩
  · refine later.ciphertext.trans ?_
    simp [CtrState.ciphertext, CtrState.copy, CtrState.encrypt,
      CtrState.acquire, done]
  · refine later.acquisitions.trans ?_
    simp [CtrState.copy, CtrState.encrypt, CtrState.acquire, acquired]

/--
The function with its destination does what the one without it says: the same
acquisitions, the same state, and the bytes written are those of `dest`.
-/
theorem rdrandGetBytesAesCtrInto_follows
    (dest : Nat → Byte)
    (count position : Nat)
    (state : AesState) :
    (ctrStart dest position state).Follows
      (rdrandGetBytesAesCtr ssl device buffer count retryLimit position
        state)
      (rdrandGetBytesAesCtrInto ssl device buffer retryLimit dest count
        position state) :=
  ctrBody_rule
    (fun sizes ctr final =>
      ctr.Follows
        (ctrChunks ssl (acquireBuffer device buffer retryLimit) sizes
          ctr.position ctr.state)
        final)
    (fun _ =>
      ⟨(List.append_nil _).symm, (List.append_nil _).symm, rfl, rfl⟩)
    ctrChunk_leave_follows
    (fun again _ _ later => ctrChunk_again_follows again later)
    (fun later =>
      ⟨later.ciphertext, later.acquisitions, later.position,
        later.state⟩)
    count (ctrStart dest position state)

end Result

end RdRand
