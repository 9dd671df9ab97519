import RdRand.AmountParsing
import RdRand.LastSettings

namespace RdRand

/-!
# The order of the options

`parse_args` goes through the options one by one and stops at the first it
refuses.  Options of different kinds do not interfere: the configuration has
of each kind what the last option of it says, so that only the order of
options of the same kind matters.
-/

open LastSettings

/-- The kinds of options, `unknown` for what `getopt_long` reports as `?`. -/
inductive OptionKind where
  | version
  | verbose
  | help
  | aesCtr
  | aesKeys
  | amount
  | threads
  | output
  | method
  | unknown
  deriving Repr, DecidableEq

namespace Argument

/-- The kind of an option. -/
def kind : Argument → OptionKind
  | .version => .version
  | .verbose => .verbose
  | .help => .help
  | .aesCtr => .aesCtr
  | .aesKeys _ => .aesKeys
  | .amount _ => .amount
  | .threads _ => .threads
  | .output _ => .output
  | .method _ => .method
  | .unknown => .unknown

/-- The flag that an option of some kind sets. -/
def flag (kind : OptionKind) (argument : Argument) : Option Bool :=
  if argument.kind = kind then some true else none

/-- The file of keys that an option gives. -/
def aeskeysFilename : Argument → Option (Option String)
  | .aesKeys optarg => some (some optarg)
  | _ => none

/-- The output file that an option gives. -/
def outputFilename : Argument → Option (Option String)
  | .output optarg => some (some optarg)
  | _ => none

/-- The method that an option chooses. -/
def chosenMethod : Argument → Option Method
  | .method optarg => some (parseMethod optarg)
  | _ => none

section Numbers

variable (libc : LibC) (errno : Bool)

/-- The number of bytes that an option asks for. -/
def bytes : Argument → Option Nat
  | .amount optarg => parseAmount libc errno optarg
  | _ => none

/-- The number of threads that an option asks for. -/
def threadCount : Argument → Option Nat
  | .threads optarg => some (parseThreads libc errno optarg).1
  | _ => none

/-- The option is accepted by itself. -/
def acceptable : Argument → Bool
  | .amount optarg => (parseAmount libc errno optarg).isSome
  | .threads optarg => (parseThreads libc errno optarg).2
  | .method optarg => decide (parseMethod optarg ≠ .methodsCount)
  | .unknown => false
  | _ => true

end Numbers

end Argument

section Requests

variable (libc : LibC) (errno : Bool)

/-- What some options make of a configuration: the last of each kind counts. -/
def Cnf.requested (config : Cnf) (arguments : List Argument) : Cnf :=
  { config with
    versionFlag := last (Argument.flag .version) config.versionFlag arguments
    verboseFlag := last (Argument.flag .verbose) config.verboseFlag arguments
    helpFlag := last (Argument.flag .help) config.helpFlag arguments
    aesFlag := last (Argument.flag .aesCtr) config.aesFlag arguments
    aeskeysFilename :=
      last Argument.aeskeysFilename config.aeskeysFilename arguments
    outputFilename :=
      last Argument.outputFilename config.outputFilename arguments
    method := last Argument.chosenMethod config.method arguments
    bytes := last (Argument.bytes libc errno) config.bytes arguments
    threads :=
      last (Argument.threadCount libc errno) config.threads arguments }

/-- Every option is accepted by itself, and keys come with encryption. -/
structure Acceptable (arguments : List Argument) : Prop where
  each :
    ∀ argument ∈ arguments, argument.acceptable libc errno = true
  paired :
    ∀ optarg, .aesKeys optarg ∈ arguments → .aesCtr ∈ arguments

/--
What the options mean: they are accepted where each is by itself and a file of
keys comes with `--aes-ctr`, and then the configuration is the one they
request, with its chunks.
-/
structure OptionsLaw
    (arguments : List Argument)
    (result : ExitCode × Cnf) : Prop where
  accepted : result.1 = .success ↔ Acceptable libc errno arguments
  configuration :
    result.1 = .success →
    result.2 =
      computeChunkSize
        (defaultConfigSetting.requested libc errno arguments)

end Requests

section Options

variable {libc : LibC} {errno : Bool}

/-- The first option, and then the others. -/
theorem Cnf.requested_cons
    (config : Cnf)
    (argument : Argument)
    (rest : List Argument) :
    config.requested libc errno (argument :: rest) =
      (config.requested libc errno [argument]).requested libc errno
        rest := by
  simp only [Cnf.requested, last_cons, last_nil]

/-- An option that is accepted sets what it requests. -/
theorem parseOptions_acceptable
    {argument : Argument}
    (accepted : argument.acceptable libc errno = true)
    (config : Cnf) :
    parseOptions libc errno [argument] config =
      (.success, config.requested libc errno [argument]) := by
  cases argument with
  | amount optarg =>
      obtain ⟨bytes, amount⟩ := Option.isSome_iff_exists.mp accepted
      simp only [parseOptions, amount, Cnf.requested, last_cons, last_nil,
        Argument.bytes]
      rfl
  | threads optarg =>
      simp only [parseOptions]
      rw [if_pos (show (parseThreads libc errno optarg).2 = true from accepted)]
      rfl
  | method optarg =>
      simp only [parseOptions]
      rw [if_neg (of_decide_eq_true accepted)]
      rfl
  | unknown =>
      cases accepted
  | _ =>
      rfl

/-- An option that is not accepted ends the parsing. -/
theorem parseOptions_refused
    {argument : Argument}
    (refused : argument.acceptable libc errno = false)
    (config : Cnf) :
    (parseOptions libc errno [argument] config).1 = .failure := by
  cases argument with
  | amount optarg =>
      have noAmount := Option.isSome_eq_false_iff.mp refused
      rw [Option.isNone_iff_eq_none] at noAmount
      simp only [parseOptions, noAmount]
  | threads optarg =>
      have noThreads : (parseThreads libc errno optarg).2 = false := refused
      simp only [parseOptions, noThreads, Bool.false_eq_true, if_false]
  | method optarg =>
      have noMethod : parseMethod optarg = .methodsCount :=
        not_not.mp (of_decide_eq_false refused)
      simp only [parseOptions, noMethod, if_true]
  | unknown =>
      rfl
  | _ =>
      cases refused

/-- The option loop succeeds on options that are all accepted. -/
theorem parseOptions_requested
    {arguments : List Argument}
    (accepted :
      ∀ argument ∈ arguments, argument.acceptable libc errno = true)
    (config : Cnf) :
    parseOptions libc errno arguments config =
      (.success, config.requested libc errno arguments) := by
  induction arguments generalizing config with
  | nil =>
      rfl
  | cons argument rest inductionHypothesis =>
      have first := accepted argument List.mem_cons_self
      have others :
          ∀ other ∈ rest, other.acceptable libc errno = true :=
        fun other member => accepted other (List.mem_cons_of_mem _ member)
      rw [parseOptions_cons, parseOptions_acceptable first, continueWith,
        inductionHypothesis others, ← Cnf.requested_cons]

/-- The option loop fails if it succeeds on less than all options. -/
theorem parseOptions_success_iff
    {arguments : List Argument}
    {config : Cnf} :
    (parseOptions libc errno arguments config).1 = .success ↔
      ∀ argument ∈ arguments, argument.acceptable libc errno = true := by
  induction arguments generalizing config with
  | nil =>
      exact ⟨fun _ _ member => (List.not_mem_nil member).elim, fun _ => rfl⟩
  | cons argument rest inductionHypothesis =>
      rw [List.forall_mem_cons, parseOptions_cons]
      cases accepted : argument.acceptable libc errno with
      | true =>
          rw [parseOptions_acceptable accepted, continueWith,
            inductionHypothesis]
          simp
      | false =>
          have refused := parseOptions_refused accepted config
          cases first : parseOptions libc errno [argument] config with
          | mk code parsed =>
              rw [first] at refused
              cases refused
              simp [continueWith]

/-- Encryption is requested where an option asks for it. -/
theorem requested_aesFlag
    (arguments : List Argument) :
    (defaultConfigSetting.requested libc errno arguments).aesFlag = true ↔
      .aesCtr ∈ arguments := by
  have flagged :
      ∀ before,
        last (Argument.flag .aesCtr) before arguments = true ↔
          before = true ∨ .aesCtr ∈ arguments := by
    induction arguments with
    | nil =>
        simp
    | cons argument rest inductionHypothesis =>
        intro before
        rw [last_cons, inductionHypothesis, List.mem_cons]
        cases argument <;> simp [Argument.flag, Argument.kind]
  exact (flagged false).trans (by simp)

/-- A file of keys is requested where an option gives one. -/
theorem requested_aeskeysFilename
    (arguments : List Argument) :
    (defaultConfigSetting.requested libc errno
          arguments).aeskeysFilename ≠ none ↔
      ∃ optarg, .aesKeys optarg ∈ arguments := by
  have given :
      ∀ before,
        last Argument.aeskeysFilename before arguments ≠ none ↔
          before ≠ none ∨ ∃ optarg, .aesKeys optarg ∈ arguments := by
    induction arguments with
    | nil =>
        simp
    | cons argument rest inductionHypothesis =>
        intro before
        rw [last_cons, inductionHypothesis]
        cases argument <;> simp [Argument.aeskeysFilename]
  exact (given none).trans (by simp)

end Options

/-- `parse_args` reads every list of options as the options mean. -/
theorem optionsLaw_parseArgs
    (libc : LibC)
    (errno : Bool)
    (arguments : List Argument) :
    OptionsLaw libc errno arguments
      (parseArgs libc errno arguments defaultConfigSetting) := by
  unfold parseArgs
  by_cases accepted :
      ∀ argument ∈ arguments, argument.acceptable libc errno = true
  · rw [parseOptions_requested accepted]
    simp only
    split
    · next unpaired =>
        refine ⟨⟨nofun, fun acceptable => ?_⟩, nofun⟩
        obtain ⟨optarg, given⟩ :=
          (requested_aeskeysFilename arguments).mp unpaired.2
        have plain := unpaired.1
        rw [(requested_aesFlag arguments).mpr
          (acceptable.paired optarg given)] at plain
        cases plain
    · next paired =>
        refine ⟨⟨fun _ => ⟨accepted, ?_⟩, fun _ => rfl⟩, fun _ => rfl⟩
        intro optarg given
        by_contra plain
        refine paired ⟨?_, ?_⟩
        · rw [← Bool.not_eq_true, requested_aesFlag]
          exact plain
        · exact (requested_aeskeysFilename arguments).mpr ⟨optarg, given⟩
  · have failed :
        (parseOptions libc errno arguments defaultConfigSetting).1 ≠
          .success :=
      fun success => accepted (parseOptions_success_iff.mp success)
    cases options : parseOptions libc errno arguments defaultConfigSetting with
    | mk code parsed =>
        rw [options] at failed
        cases code with
        | success =>
            exact absurd rfl failed
        | failure =>
            exact
              ⟨⟨nofun, fun acceptable => absurd acceptable.each accepted⟩,
                nofun⟩

/-- Of every kind, the same options come in the same order. -/
def SameOrders (first second : List Argument) : Prop :=
  ∀ kind : OptionKind,
    first.filter (fun argument => decide (argument.kind = kind)) =
      second.filter fun argument => decide (argument.kind = kind)

section Orders

variable
  {libc : LibC}
  {errno : Bool}
  {first second : List Argument}

theorem SameOrders.symm
    (orders : SameOrders first second) :
    SameOrders second first :=
  fun kind => (orders kind).symm

/-- The options are the same, whatever their order. -/
theorem SameOrders.mem
    (orders : SameOrders first second)
    {argument : Argument}
    (member : argument ∈ first) :
    argument ∈ second := by
  have inKind :
      argument ∈
        first.filter fun other => decide (other.kind = argument.kind) :=
    List.mem_filter.mpr ⟨member, decide_eq_true rfl⟩
  rw [orders argument.kind] at inKind
  exact (List.mem_filter.mp inKind).1

theorem SameOrders.acceptable
    (orders : SameOrders first second)
    (accepted : Acceptable libc errno second) :
    Acceptable libc errno first where
  each argument member := accepted.each argument (orders.mem member)
  paired optarg given :=
    orders.symm.mem (accepted.paired optarg (orders.mem given))

/-- A setting that only options of one kind make depends on these alone. -/
theorem SameOrders.last_eq
    {Value : Type}
    (orders : SameOrders first second)
    (setting : Argument → Option Value)
    (kind : OptionKind)
    (ofKind :
      ∀ argument,
        (setting argument).isSome = true → argument.kind = kind)
    (before : Value) :
    last setting before first = last setting before second :=
  last_congr
    (fun argument some => decide_eq_true (ofKind argument some))
    before (orders kind)

/-- The same options in such an order request the same configuration. -/
theorem SameOrders.requested_eq
    (orders : SameOrders first second)
    (config : Cnf) :
    config.requested libc errno first =
      config.requested libc errno second := by
  have flag :
      ∀ kind before,
        last (Argument.flag kind) before first =
          last (Argument.flag kind) before second :=
    fun kind =>
      orders.last_eq (Argument.flag kind) kind (by
        intro argument sets
        unfold Argument.flag at sets
        split at sets
        · assumption
        · cases sets)
  have aeskeysFilename :=
    orders.last_eq Argument.aeskeysFilename .aesKeys (by
      intro argument
      cases argument <;> simp [Argument.aeskeysFilename, Argument.kind])
  have outputFilename :=
    orders.last_eq Argument.outputFilename .output (by
      intro argument
      cases argument <;> simp [Argument.outputFilename, Argument.kind])
  have chosenMethod :=
    orders.last_eq Argument.chosenMethod .method (by
      intro argument
      cases argument <;> simp [Argument.chosenMethod, Argument.kind])
  have bytes :=
    orders.last_eq (Argument.bytes libc errno) .amount (by
      intro argument
      cases argument <;> simp [Argument.bytes, Argument.kind])
  have threadCount :=
    orders.last_eq (Argument.threadCount libc errno) .threads (by
      intro argument
      cases argument <;> simp [Argument.threadCount, Argument.kind])
  simp only [Cnf.requested, flag, aeskeysFilename, outputFilename,
    chosenMethod, bytes, threadCount]

end Orders

/--
The order of options of different kinds does not matter: `parse_args` accepts
both lists or neither, and makes the same configuration of both.
-/
theorem parseArgs_sameOrders
    {libc : LibC}
    {errno : Bool}
    {first second : List Argument}
    (orders : SameOrders first second) :
    ((parseArgs libc errno first defaultConfigSetting).1 = .success ↔
        (parseArgs libc errno second defaultConfigSetting).1 =
          .success) ∧
      ((parseArgs libc errno first defaultConfigSetting).1 = .success →
        parseArgs libc errno first defaultConfigSetting =
          parseArgs libc errno second defaultConfigSetting) := by
  have firstLaw := optionsLaw_parseArgs libc errno first
  have secondLaw := optionsLaw_parseArgs libc errno second
  have both :
      (parseArgs libc errno first defaultConfigSetting).1 = .success ↔
        (parseArgs libc errno second defaultConfigSetting).1 =
          .success := by
    rw [firstLaw.accepted, secondLaw.accepted]
    exact ⟨orders.symm.acceptable, orders.acceptable⟩
  refine ⟨both, fun success => ?_⟩
  apply Prod.ext
  · rw [success, both.mp success]
  · rw [firstLaw.configuration success,
      secondLaw.configuration (both.mp success),
      orders.requested_eq]

/-- An amount and threads, before and after two files for the output. -/
theorem parseArgs_sameOrders_twoOutputs :
    parseArgs LibC.decimal false
        [.amount "32", .output "a", .threads "4", .output "b"]
        defaultConfigSetting =
      parseArgs LibC.decimal false
        [.output "a", .output "b", .threads "4", .amount "32"]
        defaultConfigSetting :=
  (parseArgs_sameOrders (by rintro ⟨⟩ <;> decide)).2 (by decide)

end RdRand
