import RdRand.CleanAes
import RdRand.EncryptedOutput
import RdRand.KeyFileAcceptance
import RdRand.OptionOrder

namespace RdRand

/-!
# The program rdrand-gen

`main` parses the options, opens the output, sets the keys, asks the processor
whether it has the instruction, generates, and cleans up.  Each step can end
the program.  What lies outside, the files, the processor and the libraries,
is a `World`.
-/

/-- `RDRAND_SUPPORTED`. -/
def rdrandSupported : Int := 2

/-- `RDRAND_UNSUPPORTED`. -/
def rdrandUnsupported : Int := -2

/-- `RDRAND_MASK`. -/
def rdrandMask : BitVec 32 := 0x40000000

/-- `rdrand_testSupport`, with the register `ecx` that `cpuid` yields. -/
def rdrandTestSupport (ecx : BitVec 32) : Int :=
  if ecx &&& rdrandMask ≠ 0 then
    rdrandSupported
  else
    rdrandUnsupported

/-- The messages of `main` and `parse_args` on the standard error. -/
inductive Message where
  | sizeOutOfRange
  | unknownSuffix (suffix optarg : String)
  | invalidThreads
  | unknownMethod
  | unknownParameter
  | keysWithoutAes
  | cannotOpen (name : String)
  | incorrectSyntax (name : String)
  | notHexadecimal
  | errorOpening (name : String)
  | noRdRand
  | generatingBytes (bytes : Nat) (method : String) (threads : Nat)
  | generatingInfinite (method : String) (threads : Nat)
  | encrypting
  | keysGenerated
  | keysLoaded (name : String)
  | generated (bytes : Nat)
  deriving Repr, DecidableEq

/--
What is printed on the standard output: information that was asked for, or
the character that `load_key_line` has no use for.
-/
inductive Printed where
  | help (program : String)
  | availableMethods
  | version
  | unknown (c : Char)
  deriving Repr, DecidableEq

/--
What the program meets.  The files to read may depend on the file that was
opened for writing before, which is empty from then on.
-/
structure World where
  libc : LibC
  errno : Bool
  program : String
  arguments : List Argument
  opensOutput : String → Bool
  keyFile : Option String → String → Option (List Char)
  keyFile_opened :
    ∀ name, ∀ contents ∈ keyFile (some name) name, contents = []
  ssl : OpenSsl
  heap : Nat → List Byte
  features : BitVec 32
  env : Environment

/-- How the program ends, and what it has done. -/
structure Exit where
  code : ExitCode
  messages : List Message
  printed : List Printed
  created : Option String
  output : List Cell
  aes : AesState
  released : List Release

/-- `exit(EXIT_FAILURE)` after a message. -/
def Exit.failure
    (message : Message)
    (printed : List Printed)
    (created : Option String)
    (aes : AesState) : Exit where
  code := .failure
  messages := [message]
  printed := printed
  created := created
  output := []
  aes := aes
  released := []

/-- `exit(EXIT_SUCCESS)` after some information. -/
def Exit.information (printed : List Printed) : Exit where
  code := .success
  messages := []
  printed := printed
  created := none
  output := []
  aes := aesStart
  released := []

/-- What an option that is not accepted is answered with. -/
def Argument.complaint
    (libc : LibC)
    (errno : Bool) : Argument → Option Message
  | .amount optarg =>
      if (parseAmount libc errno optarg).isSome then
        none
      else
        let parsed := libc.strtod optarg
        if parsed.rest = optarg.toList ∨
            (errno || parsed.rangeError) = true ∨
            parsed.value.isNegative = true ∨
            parsed.value.isBeyondUint64 = true then
          some .sizeOutOfRange
        else
          some (.unknownSuffix (String.ofList parsed.rest) optarg)
  | .threads optarg =>
      if (parseThreads libc errno optarg).2 then
        none
      else
        some .invalidThreads
  | .method optarg =>
      if parseMethod optarg = .methodsCount then
        some .unknownMethod
      else
        none
  | .unknown => some .unknownParameter
  | _ => none

/-- What `parse_args` prints where it fails. -/
def parseComplaint
    (libc : LibC)
    (errno : Bool)
    (arguments : List Argument) : Message :=
  (arguments.findSome? (Argument.complaint libc errno)).getD
    .keysWithoutAes

/--
The state of the AES layer, the message that setting keys ends in, and what
was printed before.
-/
structure KeysSet where
  complaint : Option Message
  printed : List Printed := []
  aes : AesState

/-- What `main` makes of the result of `load_keys`. -/
def loadComplaint (name : String) : FileError → Option Message
  | .keyNonceBadLength => some (.incorrectSyntax name)
  | .keyInvalidCharacter => some .notHexadecimal
  | .error => some (.errorOpening name)
  | .ok => none
  | .eof => none

/-- The name in `METHOD_NAMES`. -/
def methodName (method : Method) : String :=
  ((methodNames.find? fun entry => decide (entry.2 = method)).map
    Prod.fst).getD ""

/-- What `main` prints before it generates, if it is verbose. -/
def announcements (config : Cnf) : List Message :=
  if config.verboseFlag then
    (if config.bytes ≠ 0 then
        .generatingBytes config.bytes (methodName config.method)
          config.threads
      else
        .generatingInfinite (methodName config.method) config.threads) ::
      if config.aesFlag then
        [.encrypting,
          match config.aeskeysFilename with
          | none => .keysGenerated
          | some name => .keysLoaded name]
      else
        []
  else
    []

section Endings

variable (env : Environment) (ssl : OpenSsl)

/-- The AES layer when `generate_ending` returns. -/
def endingAes (state : ChunkState AesState) : AesState :=
  if state.config.aesFlag = true ∧
      (endingFill env state).generated = state.config.endingBytes then
    (rdrandEncBufferCells ssl state.aes (endingSource env state)).aes
  else
    state.aes

/-- The AES layer when `generate` returns. -/
def generateAes
    (config : Cnf)
    (aes : AesState)
    (passes : Nat) : AesState :=
  endingAes env ssl
    (generateChunk env (rdrandEncBufferCells ssl) config aes passes).state

end Endings

namespace World

variable (world : World)

/-- The keys that `main` sets where there is to be encryption. -/
def setKeys (config : Cnf) : Option KeysSet :=
  if config.aesFlag then
    match config.aeskeysFilename with
    | some name =>
        match world.keyFile config.outputFilename name with
        | none =>
            some { complaint := some (.cannotOpen name), aes := aesStart }
        | some contents =>
            (loadKeys world.ssl world.heap contents aesStart).map
              fun loaded =>
                { complaint := loadComplaint name loaded.result
                  printed := loaded.unknown.toList.map .unknown
                  aes := loaded.state }
    | none =>
        -- the result of rdrand_set_aes_random_key is not looked at
        some
          { complaint := none
            aes := (rdrandSetAesRandomKey world.ssl aesStart).state }
  else
    some { complaint := none, aes := aesStart }

/--
`main` from the call of `generate` on.  Setting the keys has printed nothing
where it gets here.
-/
def generateAndClean
    (config : Cnf)
    (aes : AesState)
    (passes : Nat) : Option Exit :=
  (generate world.env (rdrandEncBufferCells world.ssl) config aes
      passes).map fun generated =>
    let later := generateAes world.env world.ssl config aes passes
    { code := .success
      messages :=
        announcements config ++
          if config.verboseFlag then
            [.generated generated.returned]
          else
            []
      printed := []
      created := config.outputFilename
      output := outputCells generated.trace
      aes := if config.aesFlag then rdrandCleanAes later else later
      released :=
        if config.aesFlag then cleanAesReleases later.handles else [] }

/-- `main` once the output is open. -/
def withOutput (config : Cnf) (passes : Nat) : Option Exit :=
  match world.setKeys config with
  | none => none
  | some set =>
      match set.complaint with
      | some message =>
          some
            (.failure message set.printed config.outputFilename set.aes)
      | none =>
          if rdrandTestSupport world.features = rdrandSupported then
            world.generateAndClean config set.aes passes
          else
            some
              (.failure .noRdRand set.printed config.outputFilename
                set.aes)

/-- `main` for a configuration that asks for random bytes. -/
def openAndRun (config : Cnf) (passes : Nat) : Option Exit :=
  match config.outputFilename with
  | some name =>
      if world.opensOutput name then
        world.withOutput config passes
      else
        some (.failure (.cannotOpen name) [] none aesStart)
  | none =>
      world.withOutput config passes

/--
`main`, where the chunk loop of `generate` makes at most so many passes:
`none` as long as it runs on.
-/
def main (passes : Nat) : Option Exit :=
  match
    parseArgs world.libc world.errno world.arguments
      defaultConfigSetting with
  | (.failure, _) =>
      some
        (.failure
          (parseComplaint world.libc world.errno world.arguments)
          [] none aesStart)
  | (.success, config) =>
      if config.helpFlag then
        some (.information [.help world.program, .availableMethods])
      else if config.versionFlag then
        some (.information [.version])
      else
        world.openAndRun config passes

end World

end RdRand
