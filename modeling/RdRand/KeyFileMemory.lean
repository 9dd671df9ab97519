import RdRand.KeyLimit
import RdRand.KeyLineDecoding
import RdRand.KeyMemory
import RdRand.MemoryParts

namespace RdRand

/-!
# The memory of `load_keys`

While a key file is read, each line has two strings on the heap and an array
on the stack for its digits, and the pointers to the strings are collected in
two arrays on the stack.  Their blocks are followed here as those of the keys
are.  A run over both kinds of blocks is a run over each.
-/

open ControlLoop MemoryBlocks

/--
A block of `load_keys`: a string of a line, or `buf` for a line, each with a
call of `malloc` that was made for it, or one of the arrays of pointers.  The
arrays and `buf` are on the stack, so that nothing releases them.
-/
inductive LoadBlock where
  | line (call : Nat)
  | buf (call : Nat)
  | keys
  | nonces
  deriving Repr, DecidableEq

/-- What loading does to its own blocks. -/
abbrev LoadEvents := List (MemoryBlocks.Event LoadBlock)

/-- What the program does to all blocks. -/
abbrev ProgramEvents := List (MemoryBlocks.Event (Block ⊕ LoadBlock))

/-- The digits of a line are converted: a newline ends them, and they fit. -/
def LineScan.Converts (scan : LineScan) : Prop :=
  scan.stop = .newline ∧
    scan.buf.length / 3 * 2 + scan.buf.length / 3 = scan.buf.length ∧
    scan.buf.length / 3 * 2 ≠ 0

instance (scan : LineScan) : Decidable scan.Converts :=
  inferInstanceAs (Decidable (_ ∧ _))

/-- The conversion of digits that `buf` holds from an index on. -/
def hexToByteMemory
    (buf target : LoadBlock)
    (index : Nat)
    (converted : HexResult) : LoadEvents :=
  on buf [.load (index + 2 * converted.written.length)] ++
    on target [.store converted.written.length]

/-- `load_key_line`, where the strings come from this call and the next. -/
def loadKeyLineMemory (file : List Char) (call : Nat) : LoadEvents :=
  let scan := scanLine 0 file
  let keyLen := scan.buf.length / 3 * 2
  let nonceLen := scan.buf.length / 3
  on (.buf call)
      (.allocate (2 * rdrandMaxKeyLength) ::
        (scanStores 0 file).map fun index => .store (index + 1)) ++
    if scan.Converts then
      hexToByteMemory (.buf call) (.line call) 0
          (hexToByte scan.buf keyLen (keyLen / 2)) ++
        hexToByteMemory (.buf call) (.line (call + 1)) keyLen
          (hexToByte (scan.buf.drop keyLen) nonceLen (nonceLen / 2))
    else
      []

/-- What becomes of the strings of a line that `load_key_line` has read. -/
def keepLineMemory (load : KeyLoad) : Pass KeyLoad FileError → LoadEvents
  | .leave .eof _ =>
      on (.line load.aes.mallocCalls) [.release] ++
        on (.line (load.aes.mallocCalls + 1)) [.release]
  | .leave _ _ => []
  | .again next =>
      if next.keyLen = 0 then
        []
      else
        on .keys [.store (pointerSize * (load.amount + 1))] ++
          on .nonces [.store (pointerSize * (load.amount + 1))]

section Loading

variable (ssl : OpenSsl) (heap : Nat → List Byte)

/-- The string for a key or for a nonce. -/
def mallocLine (call : Nat) : LoadEvents :=
  if ssl.mallocOk call = true then
    on (.line call) [.allocate rdrandMaxKeyLength]
  else
    []

/-- One pass over the loop of `load_keys`. -/
def loadKeysPassMemory (load : KeyLoad) : LoadEvents :=
  let call := load.aes.mallocCalls
  mallocLine ssl call ++ mallocLine ssl (call + 1) ++
    if ssl.mallocOk call = false ∨ ssl.mallocOk (call + 1) = false then
      []
    else
      loadKeyLineMemory load.file call ++
        keepLineMemory load (loadKeysPass ssl heap load)

/-- The loop of `load_keys`. -/
def loadKeysLoopMemory : Nat → KeyLoad → LoadEvents
  | 0, _ => []
  | passes + 1, load =>
      loadKeysPassMemory ssl heap load ++
        match loadKeysPass ssl heap load with
        | .leave _ _ => []
        | .again next => loadKeysLoopMemory passes next

/-- The calls of `malloc` that made the strings in `keys`. -/
def addedLines : Nat → KeyLoad → List Nat
  | 0, _ => []
  | passes + 1, load =>
      match loadKeysPass ssl heap load with
      | .leave _ _ => []
      | .again next =>
          (if next.keyLen = 0 then [] else [load.aes.mallocCalls]) ++
            addedLines passes next

/-- So many pointers to strings are read from the arrays. -/
def readArrays (amount : Nat) : LoadEvents :=
  on .keys [.load (pointerSize * amount)] ++
    on .nonces [.load (pointerSize * amount)]

/-- What `rdrand_set_aes_keys` reads of a key and a nonce it is given. -/
def copyLine (keyLength call : Nat) : LoadEvents :=
  on (.line call) [.load keyLength] ++
    on (.line (call + 1)) [.load (keyLength / 2)]

/-- The strings of a line are cleared and freed. -/
def freeLine (call : Nat) : LoadEvents :=
  on (.line call) [.clear rdrandMaxKeyLength] ++
    on (.line (call + 1)) [.clear rdrandMaxKeyLength] ++
    on (.line call) [.release] ++
    on (.line (call + 1)) [.release]

variable (locks : MemoryLocks)

/--
The code of `load_keys` after its loop.  What is copied from the lines is
listed before the blocks it is copied to.
-/
def setLoadedKeysMemory
    (load : KeyLoad)
    (calls : List Nat) : ProgramEvents :=
  if load.amount = 0 then
    []
  else
    let set :=
      rdrandSetAesKeys ssl load.amount load.firstLen load.keys load.nonces
        load.aes
    inRight
        (if set.success then
          readArrays load.amount ++ calls.flatMap (copyLine load.firstLen)
        else
          []) ++
      inLeft
        (rdrandSetAesKeysMemory ssl locks load.amount load.firstLen
          load.aes) ++
      inRight
        (if set.success then
          readArrays load.amount ++ calls.flatMap freeLine
        else
          [])

/-- The code of `load_keys` after its loop, which only `E_EOF` leads to. -/
def afterLoopMemory
    (calls : List Nat) :
    ControlLoop.Status KeyLoad FileError → ProgramEvents
  | .left .eof load => setLoadedKeysMemory ssl locks load calls
  | _ => []

/-- `load_keys` on the contents of a file that can be opened. -/
def loadKeysMemory
    (contents : List Char)
    (state : AesState) : ProgramEvents :=
  let passes := contents.length + 1
  let start := loadStart contents state
  inRight
      (on .keys [.allocate (pointerSize * maxKeys)] ++
        on .nonces [.allocate (pointerSize * maxKeys)] ++
        loadKeysLoopMemory ssl heap passes start) ++
    afterLoopMemory ssl locks (addedLines ssl heap passes start)
      ((loadKeysLoop ssl heap).run passes start)

/-- A pass stays within the arrays on the stack. -/
structure KeyLoad.PassFits (load : KeyLoad) : Prop where
  buffer :
    ∀ index ∈ scanStores 0 load.file, index < 2 * rdrandMaxKeyLength
  arrays :
    ∀ next,
      loadKeysPass ssl heap load = .again next →
      next.keyLen ≠ 0 →
      load.amount < maxKeys

/-- So many passes stay within the arrays on the stack. -/
def KeyLoad.PassesFit : Nat → KeyLoad → Prop
  | 0, _ => True
  | passes + 1, load =>
      load.PassFits ssl heap ∧
        ∀ next,
          loadKeysPass ssl heap load = .again next →
          PassesFit passes next

end Loading

end RdRand
