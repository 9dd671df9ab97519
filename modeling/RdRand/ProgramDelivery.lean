import RdRand.AmountParsing
import RdRand.GenerateAmount
import RdRand.ProgramExit

namespace RdRand

/-!
# From the amount on the command line to the output

Where nothing fails, a program that is asked for an amount puts out so many
bytes, says so and exits with success.  It does so exactly if what it needs is
there, an `unsigned int` can count the passes over the chunks, and the method
generates single bytes or the amount consists of whole words.
-/

open LastSettings

section Amounts

variable
  {libc : LibC}
  {errno : Bool}

/-- Options other than `--amount` ask for no number of bytes. -/
theorem Argument.bytes_eq_none
    {argument : Argument}
    (other : argument.isAmount = false) :
    argument.bytes libc errno = none := by
  cases argument with
  | amount optarg =>
      cases other
  | _ =>
      rfl

/-- The last amount is the one that is requested. -/
theorem requested_bytes
    (reads : libc.ReadsNumerals)
    (amount : AmountText)
    (fits : amount.bytes < sizeModulus)
    (before : List Argument)
    {after : List Argument}
    (others : ∀ argument ∈ after, argument.isAmount = false) :
    (defaultConfigSetting.requested libc false
      (before ++ .amount amount.text :: after)).bytes = amount.bytes := by
  have none :
      after.filterMap (Argument.bytes libc false) = [] :=
    List.filterMap_eq_nil_iff.mpr
      fun argument member =>
        Argument.bytes_eq_none (others argument member)
  have parsed :
      (Argument.amount amount.text).bytes libc false =
        some amount.bytes := by
    unfold Argument.bytes
    simp only
    rw [parseAmount_text reads amount, libc.sizeOfDouble_finite fits]
  simp only [Cnf.requested, last, List.filterMap_append,
    List.filterMap_cons_some parsed, none, List.getLast?_concat,
    Option.getD_some]

end Amounts

/-- The program puts out an amount, and says that it does. -/
structure World.Delivers
    (world : World)
    (amount : Nat)
    (exit : Exit) : Prop where
  code : exit.code = .success
  output : exit.output.length = amount
  created : exit.created = world.request.outputFilename
  messages :
    exit.messages =
      announcements (computeChunkSize world.request) ++
        if world.request.verboseFlag then
          [.generated amount]
        else
          []

section Generating

variable
  {Aes : Type}
  {env : Environment}
  (encBuffer : EncBuffer Aes)
  (reliable : env.Reliable)
  {config : Cnf}
  (split : config.Split)
  (realMethod : config.method ≠ .methodsCount)
  (finite : 0 < config.bytes)
  {aes : Aes}

include reliable split realMethod finite

/-- What is generated in full could be counted, and consists of whole units. -/
theorem countable_of_generate
    {passes : Nat}
    {generated : Generated Aes}
    (run : generate env encBuffer config aes passes = some generated)
    (length : (outputCells generated.trace).length = config.bytes) :
    config.chunkCount + config.aesThread < uintModulus ∧
      (config.method = .getBytes ∨ config.endingBytes % 8 = 0) := by
  have countable :
      config.chunkCount + config.aesThread < uintModulus := by
    by_contra uncountable
    have endless :=
      generateChunk_endless encBuffer reliable split realMethod finite
        aes (Nat.not_lt.mp uncountable) passes
    rw [run] at endless
    cases endless
  obtain ⟨final, finished, steady⟩ :=
    generateChunk_finished encBuffer reliable split realMethod finite
      aes countable
  rw [generate_of_finished run finished] at length
  exact
    ⟨countable,
      (steady_writes_iff encBuffer reliable split realMethod finite
        steady).mp length⟩

/-- What can be counted and consists of whole units is generated in full. -/
theorem generate_of_countable
    (aes : Aes)
    (countable : config.chunkCount + config.aesThread < uintModulus)
    (whole : config.method = .getBytes ∨ config.endingBytes % 8 = 0) :
    ∃ passes generated,
      generate env encBuffer config aes passes = some generated ∧
        (outputCells generated.trace).length = config.bytes ∧
        generated.returned = config.bytes := by
  obtain ⟨final, finished, steady⟩ :=
    generateChunk_finished encBuffer reliable split realMethod finite
      aes countable
  have length :=
    (steady_writes_iff encBuffer reliable split realMethod finite
      steady).mpr whole
  have returned :=
    steady_returns encBuffer reliable split realMethod finite steady
      whole
  exact ⟨_, _, by rw [generate, finished], length, returned⟩

end Generating

section Delivery

variable {world : World}

/-- A program that puts out something was served. -/
theorem World.main_serves
    (malloc : ∀ call, world.ssl.mallocOk call = true)
    (accepted : Acceptable world.libc world.errno world.arguments)
    {passes : Nat}
    {exit : Exit}
    (ends : world.main passes = some exit)
    (some : exit.output ≠ []) :
    world.Served ∧
      ∃ aes,
        world.generateAndClean (computeChunkSize world.request) aes
          passes = .some exit := by
  cases world.main_cases ends with
  | failure _ output =>
      exact absurd output some
  | information printed told =>
      rw [told] at some
      exact absurd rfl some
  | generates set setKeys settled opened processor ends =>
      obtain ⟨found, sameSet, usable, _⟩ :=
        world.setKeys_usable malloc accepted
      rw [setKeys] at sameSet
      cases sameSet
      exact
        ⟨⟨opened, usable.mp settled, processor⟩, set.aes, ends⟩

/-- The program delivers what `generate` writes and returns. -/
theorem World.generateAndClean_delivers
    {aes : AesState}
    {passes : Nat}
    {generated : Generated AesState}
    (run :
      generate world.env (rdrandEncBufferCells world.ssl)
        (computeChunkSize world.request) aes passes = some generated)
    (length :
      (outputCells generated.trace).length = world.request.bytes)
    (returned : generated.returned = world.request.bytes) :
    ∃ exit,
      world.generateAndClean (computeChunkSize world.request) aes
          passes = some exit ∧
        world.Delivers world.request.bytes exit := by
  obtain ⟨_, _, _, _, sameRequest⟩ :=
    computeChunkSize_frame world.request
  have output :
      (computeChunkSize world.request).outputFilename =
        world.request.outputFilename := by
    rw [sameRequest]
  have verbose :
      (computeChunkSize world.request).verboseFlag =
        world.request.verboseFlag := by
    rw [sameRequest]
  refine ⟨_, congrArg (Option.map _) run, ?_⟩
  exact
    { code := rfl
      output := length
      created := output
      messages := by
        simp only
        rw [returned, verbose] }

end Delivery

/--
Where the device and `fwrite` never fail, options that end up with a positive
amount make the program deliver it exactly if the program is served, the
passes can be counted, and the amount is not rounded down to whole words.
-/
theorem main_delivers_iff
    {world : World}
    (malloc : ∀ call, world.ssl.mallocOk call = true)
    (reliable : world.env.Reliable)
    (reads : world.libc.ReadsNumerals)
    (errno : world.errno = false)
    (accepted : Acceptable world.libc world.errno world.arguments)
    (generates : world.Generates)
    {amount : AmountText}
    (positive : 0 < amount.bytes)
    (fits : amount.bytes < sizeModulus)
    {before after : List Argument}
    (given :
      world.arguments = before ++ .amount amount.text :: after)
    (others : ∀ argument ∈ after, argument.isAmount = false) :
    (∃ passes exit,
      world.main passes = some exit ∧
        world.Delivers amount.bytes exit) ↔
      world.Served ∧
        amount.bytes / 8 / (maxChunkSize * world.request.threads) +
          world.request.aesThread < uintModulus ∧
        (world.request.method = .getBytes ∨ amount.bytes % 8 = 0) := by
  obtain ⟨split, realMethod⟩ :=
    parseArgs_split (world.parseArgs_request accepted)
  have bytes : world.request.bytes = amount.bytes := by
    unfold World.request
    rw [errno, given]
    exact requested_bytes reads amount fits before others
  obtain ⟨_, _, _, _, sameRequest⟩ :=
    computeChunkSize_frame world.request
  have chunkBytes :
      (computeChunkSize world.request).bytes = world.request.bytes := by
    rw [sameRequest]
  have finite : 0 < (computeChunkSize world.request).bytes := by
    rw [chunkBytes, bytes]
    exact positive
  have countable_iff := split.passes_lt_iff
  have whole_iff := split.endingBytes_mod finite
  have generate_iff :
      world.request.bytes / 8 / (maxChunkSize * world.request.threads) +
            world.request.aesThread < uintModulus ∧
          (world.request.method = .getBytes ∨
            world.request.bytes % 8 = 0) ↔
        (computeChunkSize world.request).chunkCount +
            (computeChunkSize world.request).aesThread < uintModulus ∧
          ((computeChunkSize world.request).method = .getBytes ∨
            (computeChunkSize world.request).endingBytes % 8 = 0) := by
    rw [countable_iff, whole_iff, sameRequest]
    rfl
  rw [← bytes, generate_iff]
  constructor
  · rintro ⟨passes, exit, ends, delivers⟩
    have some : exit.output ≠ [] := by
      rw [← List.length_pos_iff, delivers.output, bytes]
      exact positive
    obtain ⟨served, aes, ends⟩ :=
      world.main_serves malloc accepted ends some
    obtain ⟨generated, run, rfl⟩ := Option.map_eq_some_iff.mp ends
    exact
      ⟨served,
        countable_of_generate _ reliable split realMethod finite run
          (delivers.output.trans chunkBytes.symm)⟩
  · rintro ⟨served, countable, whole⟩
    obtain ⟨set, setKeys, usable, _⟩ :=
      world.setKeys_usable malloc accepted
    obtain ⟨complaint, _, aes⟩ := set
    have settled : complaint = none := usable.mpr served.keys
    rw [settled] at setKeys
    obtain ⟨passes, generated, run, length, returned⟩ :=
      generate_of_countable (rdrandEncBufferCells world.ssl) reliable
        split realMethod finite aes countable whole
    obtain ⟨exit, ends, delivers⟩ :=
      world.generateAndClean_delivers run (length.trans chunkBytes)
        (returned.trans chunkBytes)
    refine ⟨passes, exit, ?_, delivers⟩
    rw [world.main_served accepted generates served.output
      served.processor setKeys]
    exact ends

/-- One kibibyte with two threads into a file. -/
def World.kibibyte : World :=
  .sample .sample
    [.threads "2", .amount oneKibibyte.text, .verbose, .output "random"]

/-- The file gets its 1024 bytes. -/
theorem main_delivers_iff_kibibyte :
    ∃ passes exit,
      World.kibibyte.main passes = some exit ∧
        World.kibibyte.Delivers 1024 exit := by
  have accepted :
      Acceptable LibC.decimal false World.kibibyte.arguments :=
    ⟨List.all_eq_true.mp (by decide),
      by simp [World.kibibyte, World.sample]⟩
  have given :
      World.kibibyte.arguments =
        [.threads "2"] ++ .amount oneKibibyte.text ::
          [.verbose, .output "random"] :=
    rfl
  have served : World.kibibyte.Served :=
    ⟨fun _ _ => rfl, nofun, rfl⟩
  exact
    (main_delivers_iff (fun _ => rfl)
      ⟨Device.counting_neverFails, fun _ _ => rfl⟩
      LibC.decimal_readsNumerals rfl accepted ⟨rfl, rfl⟩
      (by decide) (by decide) given (by decide)).mpr
      ⟨served, by decide, .inl rfl⟩

end RdRand
