import RdRand.ArrayFillSound
import RdRand.CellMemory
import RdRand.Configuration
import RdRand.ControlLoop

namespace RdRand

/-!
# The generator

`chunkPass` is one pass over the chunk loop of `generate_chunk`, including the
parallel region, the recovery from an underflow, the buffer swap and the
write.  A pass records what it generates, encrypts and writes in a trace.

The encryption of a buffer is a parameter here: a function from the state of
the AES layer and the source cells to a return code, the cells it wrote at the
front of the destination, and the next state.
-/

open ControlLoop

/--
Where the contents of a byte of memory come from: `stack` says that its array
held it when the function began, whatever had been there before.
-/
inductive Origin where
  | stack
  | step (position : Nat)
  | cipher (call : Nat) (source : Origin)
  deriving Repr, DecidableEq

/-- A byte of memory together with its origin. -/
structure Cell where
  value : Byte
  origin : Origin
  deriving Repr, DecidableEq

/-- The cells a store puts into memory. -/
def Store.cells (store : Store) : List Cell :=
  store.bytes.map fun value =>
    { value := value, origin := .step store.origin }

@[simp] theorem Store.cells_length (store : Store) :
    store.cells.length = store.bytes.length := by
  simp [Store.cells]

/-- Memory after all stores of a fill. -/
def Fill.applyTo (fill : Fill) (memory : Nat → Cell) : Nat → Cell :=
  fill.stores.foldl
    (fun current store =>
      CellMemory.store current store.address store.cells)
    memory

/-- `RETRY_LIMIT` of rdrand-gen. -/
def retryLimit : Int := 10

/-- `SLOW_RETRY_LIMIT_CYCLES`. -/
def slowRetryLimitCycles : Nat := 100

/-- `SLOW_RETRY_LIMIT`. -/
def slowRetryLimit : Int := 1000

/-- `generate_with_metod`; `blocks` is an `unsigned int` number of bytes. -/
def generateWithMetod
    (device : Device)
    (config : Cnf)
    (buf blocks : Nat)
    (retry : Int)
    (position : Nat) : Fill :=
  match config.method with
  | .getBytes =>
      rdrandGetBytesRetry device buf blocks retry position
  | .getReseed64Delay =>
      (rdrandGetUint64ArrayReseedDelay
        device buf (blocks / 8) retry position).inBytes
  | .getReseed64Skip =>
      (rdrandGetUint64ArrayReseedSkip
        device buf (blocks / 8) retry position).inBytes
  | .methodsCount =>
      Fill.nothing position

/-- The three arrays of `generate_chunk`. -/
inductive Buffer where
  | buf
  | genBuf1
  | genBuf2
  deriving Repr, DecidableEq

/--
The contents of the three arrays, by byte offset.  Their ends are not part of
it; whether a store is past one is told from the fill that makes it.
-/
abbrev Memory := Buffer → Nat → Cell

/-- Replace the contents of one array. -/
def Memory.set
    (memory : Memory)
    (buffer : Buffer)
    (contents : Nat → Cell) : Memory :=
  fun query => if query = buffer then contents else memory query

@[simp] theorem Memory.set_same
    (memory : Memory)
    (buffer : Buffer)
    (contents : Nat → Cell) :
    memory.set buffer contents buffer = contents := by
  simp [Memory.set]

theorem Memory.set_other
    (memory : Memory)
    {buffer query : Buffer}
    (different : query ≠ buffer)
    (contents : Nat → Cell) :
    memory.set buffer contents query = memory query := by
  simp [Memory.set, different]

/-- What `rdrand_enc_buffer` reports to the generator. -/
structure Encryption (Aes : Type) where
  rc : Int
  written : List Cell
  aes : Aes

/-- `rdrand_enc_buffer` as the generator calls it. -/
abbrev EncBuffer (Aes : Type) := Aes → List Cell → Encryption Aes

/-- An encryption that leaves its source as it is, and keeps no state. -/
def plainCopy : EncBuffer Unit :=
  fun _ source => { rc := 1, written := source, aes := () }

/-- What a run of the generator does that can be observed. -/
inductive Event (Aes : Type) where
  | generated (contents : List Cell)
  | encrypted (source written : List Cell)
  | output
      (data : List Cell)
      (acceptedBytes : Nat)
      (position : Nat)
      (aes : Aes)

namespace Event

/-- The cells that reach the output stream. -/
def outputCells {Aes : Type} : Event Aes → List Cell
  | .generated _ => []
  | .encrypted _ _ => []
  | .output data acceptedBytes _ _ => data.take acceptedBytes

end Event

/-- All cells that reached the output stream, in order. -/
def outputCells {Aes : Type} (trace : List (Event Aes)) : List Cell :=
  trace.flatMap Event.outputCells

/-- The two functions that keep data in arrays on the stack. -/
inductive Frame where
  | generateChunk
  | generateEnding
  deriving Repr, DecidableEq

/--
What the generator does not determine itself: the device, the order of the
bodies of each parallel region, what the arrays of a function hold when it
begins, where the tail buffer lies, and how many items each `fwrite` accepts.
-/
structure Environment where
  device : Device
  schedule : Nat → Nat → List Nat
  schedule_perm :
    ∀ round bodies, (schedule round bodies).Perm (List.range bodies)
  stack : Frame → Memory
  stack_origin :
    ∀ frame buffer offset, (stack frame buffer offset).origin = .stack
  endingAddress : Nat
  accepts : Nat → Nat → Nat
  accepts_le : ∀ call items, accepts call items ≤ items

/--
An environment on a device: the bodies of a region run in order, the arrays
hold zeros at first, and every write is complete.
-/
def Environment.inOrder (device : Device) : Environment where
  device := device
  schedule := fun _ bodies => List.range bodies
  schedule_perm := fun _ _ => .refl _
  stack := fun _ _ _ => { value := 0, origin := .stack }
  stack_origin := fun _ _ _ => rfl
  endingAddress := 0
  accepts := fun _ items => items
  accepts_le := fun _ _ => Nat.le_refl _

/-- The variables of `generate_chunk`, with its effects so far. -/
structure ChunkState (Aes : Type) where
  config : Cnf
  n : Nat
  firstRun : Bool
  bufSize : Nat
  bufSizeBytes : Nat
  writtenTotal : Nat
  genCurrent : Buffer
  genPrevious : Buffer
  memory : Memory
  position : Nat
  aes : Aes
  rounds : Nat
  writes : Nat
  trace : List (Event Aes)

/-- Why the chunk loop is left early. -/
inductive ChunkExit where
  | hardwareProblem
  | shortWrite
  deriving Repr, DecidableEq

namespace ChunkState

variable {Aes : Type}

/-- The bodies of this pass fill slices, rather than only drain. -/
def generates (state : ChunkState Aes) : Bool :=
  decide (state.n < state.config.chunkCount) ||
    decide (state.config.bytes = 0)

/-- The condition of the chunk loop. -/
def guard (state : ChunkState Aes) : Bool :=
  decide
    (state.n <
      (state.config.chunkCount + state.config.aesThread) %
        sizeModulus) ||
    decide (state.config.bytes = 0)

/-- `n++` in `unsigned int`. -/
def increment (n : Nat) : Nat :=
  (n + 1) % uintModulus

/-- `n--` in `unsigned int`. -/
def decrement (n : Nat) : Nat :=
  (n + (uintModulus - 1)) % uintModulus

end ChunkState

/-- The state the bodies of one parallel region share. -/
structure Region (Aes : Type) where
  written : Nat
  memory : Memory
  position : Nat
  aes : Aes
  trace : List (Event Aes)

section Loop

variable {Aes : Type} (env : Environment) (encBuffer : EncBuffer Aes)

/-- The fill that body `i` of a generating pass makes. -/
def sliceFill
    (state : ChunkState Aes)
    (i position : Nat) : Fill :=
  generateWithMetod env.device state.config
    (8 * (i * state.config.chunkSize))
    (state.config.chunkSize * 8 % uintModulus)
    retryLimit position

/-- The encrypting body: it reads `gen_previous` and writes `buf`. -/
def encryptBody
    (state : ChunkState Aes)
    (region : Region Aes) : Region Aes :=
  let source :=
    CellMemory.window (region.memory state.genPrevious)
      0 state.bufSizeBytes
  let encryption := encBuffer region.aes source
  { region with
    memory :=
      region.memory.set .buf
        (CellMemory.store (region.memory .buf) 0 encryption.written)
    aes := encryption.aes
    trace :=
      region.trace ++ [.encrypted source encryption.written] }

/-- A generating body: it fills slice `i` of `gen_current`. -/
def fillBody
    (state : ChunkState Aes)
    (region : Region Aes)
    (i : Nat) : Region Aes :=
  let fill := sliceFill env state i region.position
  { region with
    written := region.written + fill.generated / 8
    memory :=
      region.memory.set state.genCurrent
        (fill.applyTo (region.memory state.genCurrent))
    position := fill.position }

/-- One body of the parallel loop. -/
def parallelBody
    (state : ChunkState Aes)
    (region : Region Aes)
    (i : Nat) : Region Aes :=
  if i < state.config.threads then
    if state.generates then
      fillBody env state region i
    else
      region
  else if state.firstRun then
    region
  else
    encryptBody encBuffer state region

/-- What the bodies of a parallel region start from. -/
def ChunkState.startRegion (state : ChunkState Aes) : Region Aes where
  written := 0
  memory := state.memory
  position := state.position
  aes := state.aes
  trace := state.trace

/-- The bodies of a parallel region, in the order of the schedule. -/
def ChunkState.order (state : ChunkState Aes) : List Nat :=
  env.schedule state.rounds
    (state.config.threads + state.config.aesThread)

/-- A parallel region after some of its bodies. -/
def runBodies
    (state : ChunkState Aes)
    (order : List Nat)
    (region : Region Aes) : Region Aes :=
  order.foldl (parallelBody env encBuffer state) region

/-- The parallel region. -/
def parallelFor (state : ChunkState Aes) : Region Aes :=
  runBodies env encBuffer state (state.order env) state.startRegion

/-- The state once the parallel region is over. -/
def ChunkState.afterRegion
    (state : ChunkState Aes)
    (region : Region Aes) : ChunkState Aes :=
  { state with
    memory := region.memory
    position := region.position
    aes := region.aes
    trace := region.trace
    rounds := state.rounds + 1 }

/-- What the slow refill loop works on. -/
structure SlowFill where
  written : Nat
  contents : Nat → Cell
  position : Nat

/-- The size argument of the slow refill, in `size_t` and then `unsigned int`. -/
def slowSize (config : Cnf) (written : Nat) : Nat :=
  (config.threads * config.chunkSize +
    (sizeModulus - written * 8 % sizeModulus)) %
      sizeModulus % uintModulus

/-- The slow refill loop, for the cycles that are left. -/
def slowRefill
    (state : ChunkState Aes) : Nat → SlowFill → SlowFill
  | 0, slow =>
      slow
  | cycles + 1, slow =>
      if slow.written = state.bufSize then
        slow
      else
        let fill :=
          generateWithMetod env.device state.config slow.written
            (slowSize state.config slow.written)
            slowRetryLimit slow.position
        slowRefill state cycles
          { written := slow.written + fill.generated / 8
            contents := fill.applyTo slow.contents
            position := fill.position }

/-- Give up one thread and run the iteration again: `n--; continue;`. -/
def ChunkState.lowerThreads (state : ChunkState Aes) : ChunkState Aes :=
  { state with
    config := { state.config with threads := state.config.threads - 1 }
    bufSize := state.bufSize - state.config.chunkSize
    n := ChunkState.increment (ChunkState.decrement state.n) }

/-- Write the output buffer and go on, or leave after a short write. -/
def writeBuffer
    (state : ChunkState Aes) : Pass (ChunkState Aes) ChunkExit :=
  let accepted := env.accepts state.writes state.bufSize
  let written : ChunkState Aes :=
    { state with
      writtenTotal := (state.writtenTotal + accepted) % sizeModulus
      writes := state.writes + 1
      trace :=
        state.trace ++
          [.output
            (CellMemory.window (state.memory .buf) 0 (8 * state.bufSize))
            (8 * accepted) state.position state.aes] }
  if accepted ≠ state.bufSize then
    .leave .shortWrite written
  else
    .again { written with n := ChunkState.increment state.n }

/-- Swap `gen_current` and `gen_previous`. -/
def ChunkState.swap (state : ChunkState Aes) : ChunkState Aes :=
  { state with
    genCurrent := state.genPrevious
    genPrevious := state.genCurrent }

/-- Record the buffer a generating pass has filled. -/
def ChunkState.recordGenerated (state : ChunkState Aes) : ChunkState Aes :=
  if state.generates then
    { state with
      trace :=
        state.trace ++
          [.generated
            (CellMemory.window (state.memory state.genCurrent)
              0 (8 * state.bufSize))] }
  else
    state

/-- The end of a pass whose buffer is taken as filled. -/
def finishPass
    (state : ChunkState Aes) : Pass (ChunkState Aes) ChunkExit :=
  let recorded := state.recordGenerated
  if state.config.aesFlag then
    if state.firstRun then
      .again
        { recorded.swap with
          firstRun := false
          n := ChunkState.increment state.n }
    else
      writeBuffer env recorded.swap
  else
    writeBuffer env recorded

/-- The slow path taken when a single thread is left. -/
def slowPath
    (state : ChunkState Aes)
    (written : Nat) : Pass (ChunkState Aes) ChunkExit :=
  let slow :=
    slowRefill env state slowRetryLimitCycles
      { written := written
        contents := state.memory state.genCurrent
        position := state.position }
  let refilled : ChunkState Aes :=
    { state with
      config :=
        { state.config with
          printedWarningFlag :=
            if state.config.printedWarningFlag = 0 then
              1
            else
              state.config.printedWarningFlag }
      memory := state.memory.set state.genCurrent slow.contents
      position := slow.position }
  if slow.written ≠ state.bufSize then
    .leave .hardwareProblem refilled
  else
    finishPass env refilled

/-- One pass over the chunk loop of `generate_chunk`. -/
def chunkPass
    (state : ChunkState Aes) : Pass (ChunkState Aes) ChunkExit :=
  let region := parallelFor env encBuffer state
  let filled := state.afterRegion region
  if region.written ≠ state.bufSize ∧
      state.n < state.config.chunkCount then
    if state.config.threads = 1 then
      slowPath env filled region.written
    else
      .again filled.lowerThreads
  else
    finishPass env filled

/-- The chunk loop. -/
def chunkLoop : Loop (ChunkState Aes) ChunkExit where
  guard := ChunkState.guard
  body := chunkPass env encBuffer

/-- The variables of `generate_chunk` before its loop. -/
def chunkStart (config : Cnf) (aes : Aes) : ChunkState Aes where
  config := config
  n := 0
  firstRun := true
  bufSize := config.chunkSize * config.threads
  bufSizeBytes := config.chunkSize * config.threads * 8
  writtenTotal := 0
  genCurrent := if config.aesFlag then .genBuf1 else .buf
  genPrevious := .genBuf2
  memory := env.stack .generateChunk
  position := 0
  aes := aes
  rounds := 0
  writes := 0
  trace := []

/-- `generate_chunk`, for at most so many passes. -/
def generateChunk
    (config : Cnf)
    (aes : Aes)
    (passes : Nat) : Status (ChunkState Aes) ChunkExit :=
  (chunkLoop env encBuffer).run passes (chunkStart env config aes)

/-- How `generate_ending` returns. -/
inductive EndingExit where
  | shortGeneration
  | shortWrite
  | complete
  deriving Repr, DecidableEq

/-- The return value of `generate_ending` and its effects. -/
structure Ending (Aes : Type) where
  returned : Nat
  exit : EndingExit
  trace : List (Event Aes)

/--
`generate_ending`, from the state that `generate_chunk` leaves.  Of its two
arrays, `enc_buf` is the one called `genBuf1` here.
-/
def generateEnding (state : ChunkState Aes) : Ending Aes :=
  let endingBytes := state.config.endingBytes
  let fill :=
    generateWithMetod env.device state.config env.endingAddress
      (endingBytes % uintModulus) retryLimit state.position
  if fill.generated ≠ endingBytes then
    { returned := fill.generated
      exit := .shortGeneration
      trace := state.trace }
  else
    let encBuf :=
      CellMemory.window
        (fill.applyTo (env.stack .generateEnding .genBuf1))
        env.endingAddress endingBytes
    let encryption := encBuffer state.aes encBuf
    let buf :=
      if state.config.aesFlag then
        CellMemory.window
          (CellMemory.store (env.stack .generateEnding .buf)
            0 encryption.written)
          0 endingBytes
      else
        encBuf
    let aes := if state.config.aesFlag then encryption.aes else state.aes
    let encryptions : List (Event Aes) :=
      if state.config.aesFlag then
        [.encrypted encBuf encryption.written]
      else
        []
    let accepted := env.accepts state.writes endingBytes
    { returned := accepted
      exit := if accepted ≠ endingBytes then .shortWrite else .complete
      trace :=
        state.trace ++ encryptions ++
          [.output buf accepted fill.position aes] }

/-- What `generate` returns and does once it ends. -/
structure Generated (Aes : Type) where
  returned : Nat
  chunkExit : Option ChunkExit
  endingExit : EndingExit
  trace : List (Event Aes)

/-- `generate` after its chunk loop has ended. -/
def finishGenerate
    (chunkExit : Option ChunkExit)
    (state : ChunkState Aes) : Generated Aes :=
  let ending := generateEnding env encBuffer state
  { returned :=
      (state.writtenTotal * 8 % sizeModulus + ending.returned) %
        sizeModulus
    chunkExit := chunkExit
    endingExit := ending.exit
    trace := ending.trace }

/-- `generate`: `none` as long as so many passes do not end the chunk loop. -/
def generate
    (config : Cnf)
    (aes : Aes)
    (passes : Nat) : Option (Generated Aes) :=
  match generateChunk env encBuffer config aes passes with
  | .running _ => none
  | .finished state => some (finishGenerate env encBuffer none state)
  | .left exit state =>
      some (finishGenerate env encBuffer (some exit) state)

/-- The events of a run of `generate` bounded to so many passes. -/
def generateTrace
    (config : Cnf)
    (aes : Aes)
    (passes : Nat) : List (Event Aes) :=
  match generate env encBuffer config aes passes with
  | none => (generateChunk env encBuffer config aes passes).state.trace
  | some generated => generated.trace

end Loop

end RdRand
