import Mathlib.Algebra.Order.Floor.Ring
import Mathlib.Data.Rat.Floor
import RdRand.Configuration

namespace RdRand

/-!
# Parsing the arguments of rdrand-gen

`parseArgs` works on the options in the order `getopt_long` reports them.  The
number parsers of the C library, and the conversion of a `double` to `size_t`,
which C leaves undefined outside the range of `size_t`, are parameters.
-/

/-- A `double`. -/
inductive Double where
  | finite (value : ℚ)
  | infinite (negative : Bool)
  | nan
  deriving DecidableEq

namespace Double

/-- `d < 0`. -/
def isNegative : Double → Bool
  | .finite value => decide (value < 0)
  | .infinite negative => negative
  | .nan => false

/-- `d >= UINT64_MAX`, where the bound is converted to the double 2^64. -/
def isBeyondUint64 : Double → Bool
  | .finite value => decide ((2 : ℚ) ^ 64 ≤ value)
  | .infinite negative => !negative
  | .nan => false

/-- `d *= pow(2, exponent)`; a power of two changes no significant digit. -/
def scale (exponent : Nat) : Double → Double
  | .finite value => .finite (value * 2 ^ exponent)
  | .infinite negative => .infinite negative
  | .nan => .nan

/-- `floor(d)`. -/
def floor : Double → Double
  | .finite value => .finite ⌊value⌋
  | .infinite negative => .infinite negative
  | .nan => .nan

end Double

/-- What a number parser of the C library reports. -/
structure Parsed (Value : Type) where
  value : Value
  rest : List Char
  rangeError : Bool
  deriving DecidableEq

/-- The library functions `parse_args` relies on. -/
structure LibC where
  strtod : String → Parsed Double
  strtoul : String → Parsed Nat
  sizeOfDouble : Double → Nat
  sizeOfDouble_lt : ∀ value, sizeOfDouble value < sizeModulus
  sizeOfDouble_finite :
    ∀ {value : Nat},
      value < sizeModulus →
      sizeOfDouble (.finite value) = value

/-- One option as `getopt_long` reports it. -/
inductive Argument where
  | version
  | verbose
  | help
  | aesCtr
  | aesKeys (optarg : String)
  | amount (optarg : String)
  | threads (optarg : String)
  | output (optarg : String)
  | method (optarg : String)
  | unknown
  deriving Repr, DecidableEq

/-- `EXIT_SUCCESS` and `EXIT_FAILURE`. -/
inductive ExitCode where
  | success
  | failure
  deriving Repr, DecidableEq

/-- The exponent of the multiplier a suffix stands for. -/
def suffixExponent : Char → Option Nat
  | 't' => some 40
  | 'T' => some 40
  | 'g' => some 30
  | 'G' => some 30
  | 'm' => some 20
  | 'M' => some 20
  | 'k' => some 10
  | 'K' => some 10
  | _ => none

/-- `--amount`: the number of bytes, or `none` where parsing fails. -/
def parseAmount (libc : LibC) (errno : Bool) (optarg : String) : Option Nat :=
  let parsed := libc.strtod optarg
  if parsed.rest = optarg.toList ∨
      (errno || parsed.rangeError) = true ∨
      parsed.value.isNegative = true ∨
      parsed.value.isBeyondUint64 = true then
    none
  else
    match parsed.rest with
    | [] =>
        some (libc.sizeOfDouble parsed.value.floor)
    | suffix :: _ =>
        (suffixExponent suffix).map fun exponent =>
          libc.sizeOfDouble (parsed.value.scale exponent).floor

/-- `--threads`: the assigned number, and whether it is accepted. -/
def parseThreads (libc : LibC) (errno : Bool) (optarg : String) : Nat × Bool :=
  let parsed := libc.strtoul optarg
  let threads := parsed.value % uintModulus
  (threads,
    !(decide (parsed.rest = optarg.toList) ||
      decide (parsed.rest ≠ []) ||
      (errno || parsed.rangeError) ||
      decide (threads < 1) ||
      decide (threads ≥ 2 ^ 31 - 1) ||
      decide (threads > maxThreads)))

/-- `--method`: the first method of that name, else `METHODS_COUNT`. -/
def parseMethod (optarg : String) : Method :=
  (methodNames.lookup optarg).getD .methodsCount

/-- The option loop of `parse_args`. -/
def parseOptions
    (libc : LibC)
    (errno : Bool) : List Argument → Cnf → ExitCode × Cnf
  | [], config =>
      (.success, config)
  | .version :: rest, config =>
      parseOptions libc errno rest { config with versionFlag := true }
  | .verbose :: rest, config =>
      parseOptions libc errno rest { config with verboseFlag := true }
  | .help :: rest, config =>
      parseOptions libc errno rest { config with helpFlag := true }
  | .aesCtr :: rest, config =>
      parseOptions libc errno rest { config with aesFlag := true }
  | .aesKeys optarg :: rest, config =>
      parseOptions libc errno rest
        { config with aeskeysFilename := some optarg }
  | .amount optarg :: rest, config =>
      match parseAmount libc errno optarg with
      | none =>
          (.failure, config)
      | some bytes =>
          parseOptions libc errno rest { config with bytes := bytes }
  | .threads optarg :: rest, config =>
      let (threads, accepted) := parseThreads libc errno optarg
      if accepted then
        parseOptions libc errno rest { config with threads := threads }
      else
        (.failure, { config with threads := threads })
  | .output optarg :: rest, config =>
      parseOptions libc errno rest
        { config with outputFilename := some optarg }
  | .method optarg :: rest, config =>
      if parseMethod optarg = .methodsCount then
        (.failure, { config with method := .methodsCount })
      else
        parseOptions libc errno rest
          { config with method := parseMethod optarg }
  | .unknown :: _, config =>
      (.failure, config)

/-- `parse_args`. -/
def parseArgs
    (libc : LibC)
    (errno : Bool)
    (arguments : List Argument)
    (config : Cnf) : ExitCode × Cnf :=
  match parseOptions libc errno arguments config with
  | (.failure, parsed) =>
      (.failure, parsed)
  | (.success, parsed) =>
      if parsed.aesFlag = false ∧ parsed.aeskeysFilename ≠ none then
        (.failure, parsed)
      else
        (.success, computeChunkSize parsed)

/-- What the option loop keeps: unset chunk fields and a real method. -/
structure Cnf.Parsing (config : Cnf) : Prop extends config.Unsplit where
  realMethod : config.method ≠ .methodsCount

/-- An accepted amount is a `size_t`. -/
theorem parseAmount_lt
    {libc : LibC}
    {errno : Bool}
    {optarg : String}
    {bytes : Nat}
    (accepted : parseAmount libc errno optarg = some bytes) :
    bytes < sizeModulus := by
  unfold parseAmount at accepted
  simp only at accepted
  split at accepted
  · cases accepted
  · split at accepted
    · cases accepted
      exact libc.sizeOfDouble_lt _
    · obtain ⟨exponent, _, sameBytes⟩ := Option.map_eq_some_iff.mp accepted
      rw [← sameBytes]
      exact libc.sizeOfDouble_lt _

/-- An accepted number of threads is in range. -/
theorem parseThreads_bounds
    {libc : LibC}
    {errno : Bool}
    {optarg : String}
    (accepted : (parseThreads libc errno optarg).2 = true) :
    1 ≤ (parseThreads libc errno optarg).1 ∧
      (parseThreads libc errno optarg).1 ≤ maxThreads := by
  simp only [parseThreads, Bool.not_eq_true', Bool.or_eq_false_iff,
    decide_eq_false_iff_not] at accepted ⊢
  omega

/-- The option loop keeps its invariant. -/
theorem parseOptions_parsing
    {libc : LibC}
    {errno : Bool}
    {arguments : List Argument}
    {config parsed : Cnf}
    (before : config.Parsing)
    (success :
      parseOptions libc errno arguments config = (.success, parsed)) :
    parsed.Parsing := by
  induction arguments generalizing config with
  | nil =>
      cases success
      exact before
  | cons argument rest inductionHypothesis =>
      cases argument with
      | amount optarg =>
          simp only [parseOptions] at success
          cases amount : parseAmount libc errno optarg with
          | none =>
              simp [amount] at success
          | some bytes =>
              simp only [amount] at success
              have kept : Cnf.Parsing { config with bytes := bytes } :=
                { before with bytesBounded := parseAmount_lt amount }
              exact inductionHypothesis kept success
      | threads optarg =>
          simp only [parseOptions] at success
          split at success
          · next accepted =>
              have bounds := parseThreads_bounds accepted
              have kept :
                  Cnf.Parsing
                    { config with
                      threads := (parseThreads libc errno optarg).1 } :=
                { before with
                  threadsPositive := bounds.1
                  threadsBounded := bounds.2 }
              exact inductionHypothesis kept success
          · cases success
      | method optarg =>
          simp only [parseOptions] at success
          split at success
          · cases success
          · next known =>
              have kept :
                  Cnf.Parsing
                    { config with method := parseMethod optarg } :=
                { before with realMethod := known }
              exact inductionHypothesis kept success
      | unknown =>
          cases success
      | _ =>
          -- the other options set nothing the invariant speaks of
          refine inductionHypothesis ?_ success
          exact { before with }

/-- The default configuration satisfies the invariant of the option loop. -/
theorem defaultConfigSetting_parsing : defaultConfigSetting.Parsing where
  threadsPositive := by decide
  threadsBounded := by decide
  bytesBounded := by decide
  noCount := rfl
  noEnding := rfl
  realMethod := by decide

theorem computeChunkSize_method (config : Cnf) :
    (computeChunkSize config).method = config.method := by
  unfold computeChunkSize
  split
  · simp only
    split <;> rfl
  · rfl

/-- A successful `parse_args` yields an exact split and a real method. -/
theorem parseArgs_split
    {libc : LibC}
    {errno : Bool}
    {arguments : List Argument}
    {config : Cnf}
    (success :
      parseArgs libc errno arguments defaultConfigSetting =
        (.success, config)) :
    config.Split ∧ config.method ≠ .methodsCount := by
  unfold parseArgs at success
  split at success
  · cases success
  · next parsed options =>
      split at success
      · cases success
      · have parsing :=
          parseOptions_parsing defaultConfigSetting_parsing options
        cases success
        refine ⟨computeChunkSize_split parsing.toUnsplit, ?_⟩
        rw [computeChunkSize_method]
        exact parsing.realMethod

/-- The value of a list of decimal digits. -/
def digitsValue (digits : List Char) : Nat :=
  digits.foldl
    (fun value digit => 10 * value + (digit.toNat - '0'.toNat)) 0

/-- The library functions, on numbers written with decimal digits only. -/
def LibC.decimal : LibC where
  strtod optarg :=
    { value := .finite (digitsValue (optarg.toList.takeWhile Char.isDigit))
      rest := optarg.toList.dropWhile Char.isDigit
      rangeError := false }
  strtoul optarg :=
    { value := digitsValue (optarg.toList.takeWhile Char.isDigit)
      rest := optarg.toList.dropWhile Char.isDigit
      rangeError := false }
  sizeOfDouble value :=
    match value with
    | .finite value => ⌊value⌋.toNat % sizeModulus
    | .infinite _ => 0
    | .nan => 0
  sizeOfDouble_lt := by
    intro value
    cases value with
    | finite value =>
        exact Nat.mod_lt _ (by decide)
    | infinite negative =>
        exact Nat.two_pow_pos 64
    | nan =>
        exact Nat.two_pow_pos 64
  sizeOfDouble_finite := by
    intro value fits
    simp [Nat.mod_eq_of_lt fits]

example :
    (parseArgs LibC.decimal false [.amount "32", .threads "1"]
      defaultConfigSetting).2.chunkCount = 1 := by
  decide

end RdRand
