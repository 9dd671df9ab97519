import RdRand.AesConfiguration
import RdRand.Generator

namespace RdRand

/-!
# Encrypting buffers

`rdrandEncBuffer` encrypts a buffer of its caller, `rdrandGetBytesAesCtr` the
bytes it acquires from the device.  Both work in chunks of `MAX_BUFFER_SIZE`
and count each chunk before they encrypt it; only the second counts the tail.
-/

/-- What `rdrand_enc_buffer` returns, and the bytes it wrote with their calls. -/
structure Encrypted where
  rc : Int
  written : List (Nat × Byte)
  state : AesState

/-- What an acquisition yields, `none` where it comes short. -/
structure Acquired where
  bytes : Option (List Byte)
  position : Nat

/-- What `rdrand_get_bytes_aes_ctr` returns, writes and acquires. -/
structure CtrResult where
  generated : Nat
  written : List Byte
  acquisitions : List (Option (List Byte))
  position : Nat
  state : AesState

/-- The array `buf` of `rdrand_get_bytes_aes_ctr`, before any acquisition. -/
structure StackBuffer where
  address : Nat
  before : Nat → Nat → Cell

/-- A zeroed array at address 0. -/
def StackBuffer.zeroed : StackBuffer where
  address := 0
  before := fun _ _ => { value := 0, origin := .stack }

section Payload

variable (ssl : OpenSsl)

/-- An encryption of payload, recorded if it succeeds. -/
def encryptPayload (input : List Byte) (state : AesState) : Update :=
  let update := encryptUpdate ssl input state
  { output := update.output
    state :=
      match update.output with
      | none => update.state
      | some output =>
          { update.state with
            log := update.state.log ++ [.payload output.length] } }

/-- The bytes of one successful cipher call, with the number of the call. -/
def withCall (call : Nat) (bytes : List Byte) : List (Nat × Byte) :=
  bytes.map fun byte => (call, byte)

/-- The tail of `rdrand_enc_buffer`, which is not counted. -/
def encBufferTail (source : List Byte) (state : AesState) : Encrypted :=
  if source.length ≠ 0 then
    let update := encryptPayload ssl source state
    match update.output with
    | none =>
        { rc := 0, written := [], state := update.state }
    | some output =>
        { rc := 1
          written := withCall state.encryptCalls output
          state := update.state }
  else
    { rc := 1, written := [], state := state }

/-- The chunks of `rdrand_enc_buffer`, and then its tail. -/
def encBufferChunks : Nat → List Byte → AesState → Encrypted
  | 0, source, state =>
      encBufferTail ssl source state
  | chunks + 1, source, state =>
      let counted := counter ssl maxBufferSize state
      if counted.success then
        let update :=
          encryptPayload ssl (source.take maxBufferSize) counted.state
        match update.output with
        | none =>
            { rc := 0, written := [], state := update.state }
        | some output =>
            let rest :=
              encBufferChunks chunks (source.drop maxBufferSize)
                update.state
            { rc := rest.rc
              written :=
                withCall counted.state.encryptCalls output ++
                  rest.written
              state := rest.state }
      else
        { rc := 0, written := [], state := counted.state }

/-- `rdrand_enc_buffer`. -/
def rdrandEncBuffer (source : List Byte) (state : AesState) : Encrypted :=
  encBufferChunks ssl (source.length / maxBufferSize) source state

/-- `rdrand_enc_buffer` as the generator calls it, on cells. -/
def rdrandEncBufferCells : EncBuffer AesState :=
  fun state source =>
    let encrypted :=
      rdrandEncBuffer ssl (source.map Cell.value) state
    { rc := encrypted.rc
      written :=
        List.zipWith
          (fun (call, value) cell =>
            { value := value, origin := .cipher call cell.origin })
          encrypted.written source
      aes := encrypted.state }

/-- The sizes of the chunks of so many bytes: full ones, then a tail. -/
def chunkSizes (count : Nat) : List Nat :=
  List.replicate (count / maxBufferSize) maxBufferSize ++
    if count % maxBufferSize ≠ 0 then
      [count % maxBufferSize]
    else
      []

/--
The chunks of `rdrand_get_bytes_aes_ctr`, with a function that acquires so
many bytes from a device position on.  The result of `counter` is not used.
-/
def ctrChunks
    (acquire : Nat → Nat → Acquired) :
    List Nat → Nat → AesState → CtrResult
  | [], position, state =>
      { generated := 0
        written := []
        acquisitions := []
        position := position
        state := state }
  | size :: rest, position, state =>
      let counted := counter ssl size state
      let acquired := acquire size position
      match acquired.bytes with
      | none =>
          { generated := 0
            written := []
            acquisitions := [none]
            position := acquired.position
            state := counted.state }
      | some bytes =>
          let update := encryptPayload ssl bytes counted.state
          match update.output with
          | none =>
              { generated := 0
                written := []
                acquisitions := [some bytes]
                position := acquired.position
                state := update.state }
          | some output =>
              let later :=
                ctrChunks acquire rest acquired.position update.state
              { generated := size + later.generated
                written := output ++ later.written
                acquisitions := some bytes :: later.acquisitions
                position := later.position
                state := later.state }

/-- `rdrand_get_bytes_retry` into the array `buf`, if it is complete. -/
def acquireBuffer
    (device : Device)
    (buffer : StackBuffer)
    (retryLimit : Int)
    (size position : Nat) : Acquired :=
  let fill :=
    rdrandGetBytesRetry device buffer.address size retryLimit position
  { bytes :=
      if fill.generated ≠ size then
        none
      else
        some
          ((CellMemory.window (fill.applyTo (buffer.before position))
            buffer.address size).map Cell.value)
    position := fill.position }

/-- `rdrand_get_bytes_aes_ctr`. -/
def rdrandGetBytesAesCtr
    (device : Device)
    (buffer : StackBuffer)
    (count : Nat)
    (retryLimit : Int)
    (position : Nat)
    (state : AesState) : CtrResult :=
  ctrChunks ssl (acquireBuffer device buffer retryLimit)
    (chunkSizes count) position state

end Payload

/-- A call to one of the two encrypting functions. -/
inductive AesCall where
  | getBytesAesCtr (count : Nat) (retryLimit : Int)
  | encBuffer (source : List Byte)

/-- The library between two calls. -/
structure AesRun where
  position : Nat
  state : AesState

section Calls

variable
  (ssl : OpenSsl)
  (device : Device)
  (buffer : StackBuffer)

/-- One call. -/
def runCall (run : AesRun) : AesCall → AesRun
  | .getBytesAesCtr count retryLimit =>
      let result :=
        rdrandGetBytesAesCtr ssl device buffer count retryLimit
          run.position run.state
      { position := result.position, state := result.state }
  | .encBuffer source =>
      { run with state := (rdrandEncBuffer ssl source run.state).state }

/-- A sequence of calls. -/
def runCalls (calls : List AesCall) (run : AesRun) : AesRun :=
  calls.foldl (runCall ssl device buffer) run

end Calls

end RdRand
