import RdRand.ParseArgs

namespace RdRand

/-!
# Amounts with a suffix

The argument of `--amount` is a numeral and perhaps a letter that multiplies
it by a power of 1024.  `parse_args` tests the range of the numeral and scales
it afterwards, so that the number of bytes is in range exactly when the scaled
number is one of `size_t` already.
-/

/-- A decimal numeral below 2^53, perhaps with a known suffix. -/
structure AmountText where
  digits : List Char
  suffix : Option Char
  nonempty : digits ≠ []
  decimal : ∀ digit ∈ digits, digit.isDigit = true
  small : digitsValue digits < 2 ^ 53
  known : ∀ letter ∈ suffix, (suffixExponent letter).isSome = true

namespace AmountText

/-- The argument as it is given. -/
def text (amount : AmountText) : String :=
  String.ofList (amount.digits ++ amount.suffix.toList)

/-- The exponent of the multiplier, 0 without a suffix. -/
def exponent (amount : AmountText) : Nat :=
  (amount.suffix.bind suffixExponent).getD 0

/-- The number of bytes the argument stands for. -/
def bytes (amount : AmountText) : Nat :=
  digitsValue amount.digits * 2 ^ amount.exponent

end AmountText

/--
What is documented of `strtod` for such an argument: the numeral is converted
exactly, up to the suffix.
-/
def LibC.ReadsNumerals (libc : LibC) : Prop :=
  ∀ amount : AmountText,
    libc.strtod amount.text =
      { value := .finite (digitsValue amount.digits)
        rest := amount.suffix.toList
        rangeError := false }

/-- No suffix is a digit. -/
theorem isDigit_of_suffixExponent
    {letter : Char}
    (known : (suffixExponent letter).isSome = true) :
    letter.isDigit = false := by
  unfold suffixExponent at known
  split at known
  all_goals first | rfl | cases known

/-- The digits of such an argument end where its suffix begins. -/
theorem AmountText.suffix_stops (amount : AmountText) :
    amount.suffix.toList.takeWhile Char.isDigit = [] ∧
      amount.suffix.toList.dropWhile Char.isDigit =
        amount.suffix.toList := by
  cases suffix : amount.suffix with
  | none =>
      exact ⟨rfl, rfl⟩
  | some letter =>
      have noDigit := isDigit_of_suffixExponent (amount.known _ suffix)
      simp [noDigit]

/-- The library functions on decimal digits read numerals. -/
theorem LibC.decimal_readsNumerals : LibC.decimal.ReadsNumerals := by
  intro amount
  simp only [LibC.decimal, AmountText.text, String.toList_ofList,
    List.takeWhile_append_of_pos amount.decimal,
    List.dropWhile_append_of_pos amount.decimal, amount.suffix_stops.1,
    amount.suffix_stops.2, List.append_nil]

/-- Scaling a natural number by a power of two and rounding is exact. -/
theorem floor_scale (value exponent : Nat) :
    ((Double.finite value).scale exponent).floor =
      .finite ((value * 2 ^ exponent : Nat) : ℚ) := by
  have scaled :
      (value : ℚ) * 2 ^ exponent = ((value * 2 ^ exponent : Nat) : ℚ) := by
    push_cast
    rfl
  simp only [Double.scale, Double.floor, scaled, Int.floor_natCast,
    Int.cast_natCast]

/-- A numeral below 2^53 passes the test of the range. -/
theorem AmountText.passes (amount : AmountText) :
    (Double.finite (digitsValue amount.digits)).isNegative = false ∧
      (Double.finite (digitsValue amount.digits)).isBeyondUint64 =
        false := by
  have small : (digitsValue amount.digits : ℚ) < 2 ^ 64 := by
    have bounded : digitsValue amount.digits < 2 ^ 64 :=
      Nat.lt_trans amount.small (by decide)
    exact_mod_cast bounded
  exact
    ⟨decide_eq_false (not_lt.mpr (Nat.cast_nonneg _)),
      decide_eq_false (not_le.mpr small)⟩

/-- `--amount` accepts every such argument, whatever its suffix makes of it. -/
theorem parseAmount_text
    {libc : LibC}
    (reads : libc.ReadsNumerals)
    (amount : AmountText) :
    parseAmount libc false amount.text =
      some (libc.sizeOfDouble (.finite (amount.bytes : ℚ))) := by
  have converted : amount.suffix.toList ≠ amount.text.toList := by
    intro same
    have length := congrArg List.length same
    rw [AmountText.text, String.toList_ofList, List.length_append]
      at length
    have digits := List.length_pos_iff.mpr amount.nonempty
    omega
  obtain ⟨notNegative, notBeyond⟩ := amount.passes
  unfold parseAmount
  rw [reads amount]
  simp only [converted, notNegative, notBeyond, Bool.or_false,
    Bool.false_eq_true, or_false, if_false]
  unfold AmountText.bytes AmountText.exponent
  cases suffix : amount.suffix with
  | none =>
      simp [Double.floor]
  | some letter =>
      obtain ⟨exponent, meaning⟩ :=
        Option.isSome_iff_exists.mp (amount.known letter suffix)
      simp only [Option.toList_some, meaning, Option.map_some,
        floor_scale, Option.bind_some, Option.getD_some]

section Options

variable
  {libc : LibC}
  {errno : Bool}

/-- What follows an option that is accepted. -/
def continueWith
    (options : Cnf → ExitCode × Cnf) : ExitCode × Cnf → ExitCode × Cnf
  | (.failure, parsed) => (.failure, parsed)
  | (.success, parsed) => options parsed

/-- The option loop takes one option, and then the others. -/
theorem parseOptions_cons
    (argument : Argument)
    (rest : List Argument)
    (config : Cnf) :
    parseOptions libc errno (argument :: rest) config =
      continueWith (parseOptions libc errno rest)
        (parseOptions libc errno [argument] config) := by
  cases argument with
  | amount optarg =>
      simp only [parseOptions]
      cases parseAmount libc errno optarg <;> rfl
  | threads optarg =>
      simp only [parseOptions]
      split <;> rfl
  | method optarg =>
      simp only [parseOptions]
      split <;> rfl
  | _ =>
      rfl

/-- The option loop on options after one another. -/
theorem parseOptions_append
    (first second : List Argument)
    (config : Cnf) :
    parseOptions libc errno (first ++ second) config =
      continueWith (parseOptions libc errno second)
        (parseOptions libc errno first config) := by
  induction first generalizing config with
  | nil =>
      rfl
  | cons argument rest inductionHypothesis =>
      rw [List.cons_append, parseOptions_cons argument (rest ++ second),
        parseOptions_cons argument rest]
      cases parseOptions libc errno [argument] config with
      | mk code parsed =>
          cases code with
          | failure =>
              rfl
          | success =>
              exact inductionHypothesis parsed

/-- The option is an `--amount`. -/
def Argument.isAmount : Argument → Bool
  | .amount _ => true
  | _ => false

/-- The same result with another number of bytes. -/
def withBytes (bytes : Nat) (result : ExitCode × Cnf) : ExitCode × Cnf :=
  (result.1, { result.2 with bytes := bytes })

/-- Only `--amount` reads or writes the number of bytes. -/
theorem parseOptions_singleton_bytes
    {argument : Argument}
    (other : argument.isAmount = false)
    (config : Cnf)
    (bytes : Nat) :
    parseOptions libc errno [argument] { config with bytes := bytes } =
      withBytes bytes (parseOptions libc errno [argument] config) := by
  cases argument with
  | amount optarg =>
      cases other
  | threads optarg =>
      simp only [parseOptions]
      split <;> rfl
  | method optarg =>
      simp only [parseOptions]
      split <;> rfl
  | _ =>
      rfl

theorem parseOptions_bytes
    {arguments : List Argument}
    (others : ∀ argument ∈ arguments, argument.isAmount = false)
    (config : Cnf)
    (bytes : Nat) :
    parseOptions libc errno arguments { config with bytes := bytes } =
      withBytes bytes (parseOptions libc errno arguments config) := by
  induction arguments generalizing config with
  | nil =>
      rfl
  | cons argument rest inductionHypothesis =>
      have restOthers :
          ∀ other ∈ rest, other.isAmount = false :=
        fun other member => others other (List.mem_cons_of_mem _ member)
      rw [parseOptions_cons argument rest,
        parseOptions_cons argument rest,
        parseOptions_singleton_bytes (others _ List.mem_cons_self)]
      cases parseOptions libc errno [argument] config with
      | mk code parsed =>
          cases code with
          | failure =>
              rfl
          | success =>
              exact inductionHypothesis restOthers parsed

/-- The last amount replaces the number of bytes of the other options. -/
theorem parseOptions_amount
    {before after : List Argument}
    {optarg : String}
    {config options : Cnf}
    {bytes : Nat}
    (last : ∀ argument ∈ after, argument.isAmount = false)
    (others :
      parseOptions libc errno (before ++ after) config =
        (.success, options))
    (accepted : parseAmount libc errno optarg = some bytes) :
    parseOptions libc errno (before ++ .amount optarg :: after) config =
      (.success, { options with bytes := bytes }) := by
  rw [parseOptions_append] at others ⊢
  cases front : parseOptions libc errno before config with
  | mk code parsed =>
      rw [front] at others
      cases code with
      | failure =>
          cases others
      | success =>
          simp only [continueWith] at others ⊢
          rw [parseOptions]
          simp only [accepted]
          rw [parseOptions_bytes last, others]
          rfl

end Options

/--
The intended reading of an amount beside some other options: it is accepted
with exactly this number of bytes and the chunks for it if the number is one
of `size_t`, and else it is refused.
-/
structure AmountLaw
    (amount : AmountText)
    (options : Cnf)
    (result : ExitCode × Cnf) : Prop where
  accepted :
    amount.bytes < sizeModulus →
    result =
      (.success, computeChunkSize { options with bytes := amount.bytes })
  refused : sizeModulus ≤ amount.bytes → result.1 = .failure

/-- An amount is accepted, with the number its conversion yields. -/
theorem parseArgs_amount
    {libc : LibC}
    (reads : libc.ReadsNumerals)
    (amount : AmountText)
    {before after : List Argument}
    {config options : Cnf}
    (last : ∀ argument ∈ after, argument.isAmount = false)
    (others :
      parseOptions libc false (before ++ after) config =
        (.success, options))
    (paired : ¬(options.aesFlag = false ∧ options.aeskeysFilename ≠ none)) :
    parseArgs libc false (before ++ .amount amount.text :: after) config =
      (.success,
        computeChunkSize
          { options with
            bytes := libc.sizeOfDouble (.finite (amount.bytes : ℚ)) }) := by
  unfold parseArgs
  rw [parseOptions_amount last others (parseAmount_text reads amount)]
  simp only
  rw [if_neg paired]

/--
Beside other options that are accepted, an amount is read as intended exactly
if its number of bytes is one of `size_t`: no larger one is refused.
-/
theorem parseArgs_amountLaw_iff
    {libc : LibC}
    (reads : libc.ReadsNumerals)
    (amount : AmountText)
    {before after : List Argument}
    {config options : Cnf}
    (last : ∀ argument ∈ after, argument.isAmount = false)
    (others :
      parseOptions libc false (before ++ after) config =
        (.success, options))
    (paired : ¬(options.aesFlag = false ∧ options.aeskeysFilename ≠ none)) :
    AmountLaw amount options
        (parseArgs libc false (before ++ .amount amount.text :: after)
          config) ↔
      amount.bytes < sizeModulus := by
  rw [parseArgs_amount reads amount last others paired]
  constructor
  · intro law
    by_contra tooLarge
    have refused := law.refused (Nat.not_lt.mp tooLarge)
    cases refused
  · intro fits
    exact
      { accepted := fun _ => by
          rw [libc.sizeOfDouble_finite fits]
        refused := fun tooLarge =>
          absurd fits (Nat.not_lt.mpr tooLarge) }

/-- `1k`. -/
def oneKibibyte : AmountText where
  digits := ['1']
  suffix := some 'k'
  nonempty := by decide
  decimal := List.all_eq_true.mp (by decide)
  small := by decide
  known := by
    rintro _ ⟨⟩
    rfl

/-- One kibibyte, between two other options. -/
theorem parseArgs_amountLaw_iff_oneKibibyte :
    AmountLaw oneKibibyte
        { defaultConfigSetting with threads := 1, verboseFlag := true }
        (parseArgs LibC.decimal false
          ([.threads "1"] ++ .amount oneKibibyte.text :: [.verbose])
          defaultConfigSetting) ↔
      oneKibibyte.bytes < sizeModulus :=
  parseArgs_amountLaw_iff LibC.decimal_readsNumerals oneKibibyte
    (by decide) (by decide) (by decide)

/-- `16777216T`, which is 2^64 bytes. -/
def sixteenExbibytes : AmountText where
  digits := ['1', '6', '7', '7', '7', '2', '1', '6']
  suffix := some 'T'
  nonempty := by decide
  decimal := List.all_eq_true.mp (by decide)
  small := by decide
  known := by
    rintro _ ⟨⟩
    rfl

/-- 2^64 bytes are accepted. -/
theorem parseArgs_amount_sixteenExbibytes :
    sizeModulus ≤ sixteenExbibytes.bytes ∧
      (parseArgs LibC.decimal false [.amount sixteenExbibytes.text]
        defaultConfigSetting).1 = .success ∧
      ¬AmountLaw sixteenExbibytes defaultConfigSetting
        (parseArgs LibC.decimal false [.amount sixteenExbibytes.text]
          defaultConfigSetting) := by
  have tooLarge : sizeModulus ≤ sixteenExbibytes.bytes := by
    decide
  have parsed :
      parseArgs LibC.decimal false ([] ++ .amount sixteenExbibytes.text :: [])
          defaultConfigSetting = _ :=
    parseArgs_amount LibC.decimal_readsNumerals sixteenExbibytes
      (by decide) rfl (by decide)
  rw [List.nil_append] at parsed
  rw [parsed]
  refine ⟨tooLarge, rfl, ?_⟩
  intro law
  cases law.refused tooLarge

end RdRand
