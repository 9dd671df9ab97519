import RdRand.AesConfiguration
import RdRand.ControlLoop
import RdRand.Hexadecimal

namespace RdRand

/-!
# Loading keys from a file

`loadKeys` reads a file of keys, one character a byte, line by line.  A line
is split into a key and a nonce, each is converted to bytes, and the keys are
handed to `rdrandSetAesKeys`.  The contents of a fresh string of the heap are
given by the number of the call of `malloc`.
-/

open ControlLoop Hexadecimal

/-- `MAX_KEYS`. -/
def maxKeys : Nat := 128

/-- `FILE_ERRORS`. -/
inductive FileError where
  | ok
  | eof
  | error
  | keyNonceBadLength
  | keyInvalidCharacter
  deriving Repr, DecidableEq

/-- `isspace` in the C locale. -/
def isSpace (character : Char) : Bool :=
  character == ' ' ||
    (9 ≤ character.toNat && character.toNat ≤ 13)

/--
`sscanf(text, "%02x", &n)`: white space, then at most two characters that
form a number, with a sign or without.  `none` where nothing is converted,
which ISO C lets happen to a bare "0x", where glibc converts a zero.
-/
def sscanfHex (text : List Char) : Option Nat :=
  match text.dropWhile isSpace with
  | [] => none
  | first :: rest =>
      match digitValue first, rest.head?.bind digitValue with
      | some high, some low => some (16 * high + low)
      | some high, none =>
          if first = '0' ∧
              (rest.head? = some 'x' ∨ rest.head? = some 'X') then
            none
          else
            some high
      | none, some low =>
          if first = '+' then
            some low
          else if first = '-' then
            some ((uintModulus - low) % uintModulus)
          else
            none
      | none, none => none

/-- What `hexToByte` returns, and the bytes it writes. -/
structure HexResult where
  rc : Nat
  written : List Byte
  deriving Repr, DecidableEq

/-- The loop of `hexToByte`. -/
def hexToByteLoop : Nat → List Char → HexResult
  | 0, _ =>
      { rc := 1, written := [] }
  | bytes + 1, hex =>
      match sscanfHex hex with
      | none =>
          { rc := 0, written := [] }
      | some n =>
          let later := hexToByteLoop bytes (hex.drop 2)
          { rc := later.rc
            written := BitVec.ofNat 8 n :: later.written }

/-- `hexToByte`. -/
def hexToByte
    (hex : List Char)
    (hexLength byteLength : Nat) : HexResult :=
  if hexLength ≠ 2 * byteLength % sizeModulus then
    { rc := 0, written := [] }
  else
    hexToByteLoop byteLength hex

/-- The test for a hexadecimal digit in `load_key_line`. -/
def isHexDigit (c : Char) : Bool :=
  decide (Between 'a' 'f' c) || decide (Between 'A' 'F' c) ||
    decide (Between '0' '9' c)

/-- Why the reading of a line stops. -/
inductive LineStop where
  | newline
  | endOfFile
  | tooLong
  | invalidCharacter (c : Char)
  deriving Repr, DecidableEq

/-- What was stored in `buf`, why reading stopped, and the rest of the file. -/
structure LineScan where
  buf : List Char
  stop : LineStop
  rest : List Char
  deriving Repr, DecidableEq

/-- The loop of `load_key_line`, from a position of `buf` on. -/
def scanLine : Nat → List Char → LineScan
  | _, [] =>
      { buf := [], stop := .endOfFile, rest := [] }
  | i, c :: rest =>
      if c = '\n' then
        { buf := [], stop := .newline, rest := rest }
      else if isHexDigit c then
        if rdrandMaxKeyLength * 2 < i then
          { buf := [], stop := .tooLong, rest := rest }
        else
          let later := scanLine (i + 1) rest
          { later with buf := c :: later.buf }
      else
        { buf := [], stop := .invalidCharacter c, rest := rest }

/--
The results of `load_key_line`, the rest of the file, and the character that
`printf` reports as unknown, if there is one.
-/
structure KeyLine where
  result : FileError
  key : List Byte
  keyLen : Nat
  nonce : List Byte
  nonceLen : Nat
  rest : List Char
  unknown : Option Char
  deriving Repr, DecidableEq

/--
`load_key_line`, with the strings it writes to and the lengths before the
call.
-/
def loadKeyLine
    (file : List Char)
    (key nonce : List Byte)
    (keyLen nonceLen : Nat) : KeyLine :=
  let scan := scanLine 0 file
  let unchanged : KeyLine :=
    { result := .ok
      key := key
      keyLen := keyLen
      nonce := nonce
      nonceLen := nonceLen
      rest := scan.rest
      unknown := none }
  match scan.stop with
  | .tooLong => { unchanged with result := .keyNonceBadLength }
  | .invalidCharacter c =>
      { unchanged with
        result := .keyInvalidCharacter
        unknown := some c }
  | stop =>
      let i := scan.buf.length
      let split : KeyLine :=
        { unchanged with keyLen := i / 3 * 2, nonceLen := i / 3 }
      if split.keyLen + split.nonceLen ≠ i then
        { split with result := .keyNonceBadLength }
      else if stop = .endOfFile then
        { split with result := .eof }
      else if split.keyLen = 0 then
        split
      else
        { split with
          key :=
            KeyArray.overwrite
              (hexToByte scan.buf split.keyLen
                (split.keyLen / 2)).written
              key
          nonce :=
            KeyArray.overwrite
              (hexToByte (scan.buf.drop split.keyLen) split.nonceLen
                (split.nonceLen / 2)).written
              nonce
          keyLen := split.keyLen / 2
          nonceLen := split.nonceLen / 2 }

/-- The variables of the loop of `load_keys`. -/
structure KeyLoad where
  file : List Char
  keyLen : Nat
  nonceLen : Nat
  firstLen : Nat
  keys : List (List Byte)
  nonces : List (List Byte)
  unknown : Option Char
  aes : AesState
  deriving Repr, DecidableEq

/-- `amount`, the index of the next entry of the arrays. -/
def KeyLoad.amount (load : KeyLoad) : Nat :=
  load.keys.length

/--
What `load_keys` returns, the character that was reported as unknown, and the
state after the call.
-/
structure Loaded where
  result : FileError
  unknown : Option Char
  state : AesState
  deriving Repr, DecidableEq

section Load

variable
  (ssl : OpenSsl)
  (heap : Nat → List Byte)

/-- The code `load_keys` runs for a line that was read. -/
def addKeyLine (line : KeyLine) (load : KeyLoad) : Pass KeyLoad FileError :=
  let read : KeyLoad :=
    { load with
      file := line.rest
      keyLen := line.keyLen
      nonceLen := line.nonceLen }
  if line.result ≠ .ok then
    .leave line.result { read with unknown := line.unknown }
  else if line.keyLen = 0 then
    .again read
  else if rdrandMaxKeyLength < line.keyLen ∨
      line.keyLen < rdrandMinKeyLength then
    .leave .keyNonceBadLength read
  else
    let firstLen :=
      if load.firstLen = 0 then
        line.keyLen
      else
        load.firstLen
    if firstLen ≠ line.keyLen then
      .leave .keyNonceBadLength { read with firstLen := firstLen }
    else
      .again
        { read with
          firstLen := firstLen
          keys := load.keys ++ [line.key]
          nonces := load.nonces ++ [line.nonce] }

/-- One pass over the loop of `load_keys`. -/
def loadKeysPass (load : KeyLoad) : Pass KeyLoad FileError :=
  let call := load.aes.mallocCalls
  let allocated : KeyLoad :=
    { load with aes := { load.aes with mallocCalls := call + 2 } }
  if ssl.mallocOk call = false ∨ ssl.mallocOk (call + 1) = false then
    .leave .error allocated
  else
    addKeyLine
      (loadKeyLine load.file (heap call) (heap (call + 1)) load.keyLen
        load.nonceLen)
      allocated

/-- The loop of `load_keys`, `while( 1 )`. -/
def loadKeysLoop : Loop KeyLoad FileError where
  guard := fun _ => true
  body := loadKeysPass ssl heap

/-- The code of `load_keys` after its loop. -/
def setLoadedKeys (load : KeyLoad) : Loaded :=
  if load.amount = 0 then
    { result := .keyNonceBadLength
      unknown := load.unknown
      state := load.aes }
  else
    let set :=
      rdrandSetAesKeys ssl load.amount load.firstLen load.keys load.nonces
        load.aes
    { result :=
        if set.success then
          .ok
        else
          .keyNonceBadLength
      unknown := load.unknown
      state := set.state }

/--
`load_keys` on the contents of a file that can be opened.  Every pass reads a
character or leaves, so the passes allowed suffice.
-/
def loadKeys (contents : List Char) (state : AesState) : Option Loaded :=
  match (loadKeysLoop ssl heap).run (contents.length + 1)
      { file := contents
        keyLen := 0
        nonceLen := 0
        firstLen := 0
        keys := []
        nonces := []
        unknown := none
        aes := state } with
  | .left .eof load => some (setLoadedKeys ssl load)
  | .left result load =>
      some
        { result := result
          unknown := load.unknown
          state := load.aes }
  | .finished _ => none
  | .running _ => none

end Load

end RdRand
