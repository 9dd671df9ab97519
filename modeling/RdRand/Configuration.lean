import Mathlib.Tactic.Ring
import RdRand.Device

namespace RdRand

/-!
# The configuration of rdrand-gen

`Cnf` holds the settings that the generator reads.  `computeChunkSize` splits
the requested amount into chunks for all threads and an ending; the split is
exact, which every statement about the amount written rests on.
-/

/-- `DEFAULT_THREADS`. -/
def defaultThreads : Nat := 2

/-- `DEFAULT_BYTES`. -/
def defaultBytes : Nat := 0

/-- `MAX_CHUNK_SIZE`, in 64-bit blocks. -/
def maxChunkSize : Nat := 2048

/-- The largest accepted number of threads. -/
def maxThreads : Nat := 16384

/-- The methods of generating, with the count that ends the enumeration. -/
inductive Method where
  | getBytes
  | getReseed64Delay
  | getReseed64Skip
  | methodsCount
  deriving Repr, DecidableEq

/-- `DEFAULT_METHOD`. -/
def defaultMethod : Method := .getBytes

/-- `METHOD_NAMES`, each with its method. -/
def methodNames : List (String × Method) :=
  [("get_bytes", .getBytes),
   ("reseed_delay", .getReseed64Delay),
   ("reseed_skip", .getReseed64Skip)]

/-- `cnf_t`, without the output stream. -/
structure Cnf where
  outputFilename : Option String
  aeskeysFilename : Option String
  method : Method
  helpFlag : Bool
  versionFlag : Bool
  verboseFlag : Bool
  printedWarningFlag : Nat
  aesFlag : Bool
  threads : Nat
  bytes : Nat
  blocks : Nat
  chunkSize : Nat
  chunkCount : Nat
  endingBytes : Nat
  deriving Repr, DecidableEq

/-- `DEFAULT_CONFIG_SETTING`. -/
def defaultConfigSetting : Cnf where
  outputFilename := none
  aeskeysFilename := none
  method := defaultMethod
  helpFlag := false
  versionFlag := false
  verboseFlag := false
  printedWarningFlag := 0
  aesFlag := false
  threads := defaultThreads
  bytes := defaultBytes
  blocks := 0
  chunkSize := 0
  chunkCount := 0
  endingBytes := 0

/-- The size of one chunk: an even share of the blocks, capped. -/
def shareOfThread (blocks threads : Nat) : Nat :=
  if blocks / threads > maxChunkSize then
    maxChunkSize
  else
    blocks / threads

/-- `compute_chunk_size`. -/
def computeChunkSize (config : Cnf) : Cnf :=
  if config.bytes > 0 then
    let blocks := config.bytes / 8
    let chunkSize := shareOfThread blocks config.threads
    if chunkSize > 0 then
      let chunkCount :=
        blocks / (chunkSize * config.threads % sizeModulus)
      { config with
        blocks := blocks
        chunkSize := chunkSize
        chunkCount := chunkCount
        endingBytes :=
          config.bytes %
            (chunkSize * chunkCount * config.threads * 8 % sizeModulus) }
    else
      { config with
        blocks := blocks
        chunkSize := chunkSize
        endingBytes := config.bytes }
  else
    { config with chunkSize := maxChunkSize }

/-- The bytes all threads together generate in one iteration. -/
def Cnf.roundBytes (config : Cnf) : Nat :=
  8 * (config.chunkSize * config.threads)

/--
The chunk fields split the requested amount: full rounds of all threads, then
an ending shorter than a round, or no rounds at all.
-/
structure Cnf.Split (config : Cnf) : Prop where
  threadsPositive : 1 ≤ config.threads
  threadsBounded : config.threads ≤ maxThreads
  bytesBounded : config.bytes < sizeModulus
  chunkBounded : config.chunkSize ≤ maxChunkSize
  exactly :
    0 < config.bytes →
    config.roundBytes * config.chunkCount + config.endingBytes =
      config.bytes
  rounds :
    0 < config.bytes →
    0 < config.chunkSize →
    1 ≤ config.chunkCount ∧ config.endingBytes < config.roundBytes
  fullChunks :
    1 < config.chunkCount → config.chunkSize = maxChunkSize
  noRounds :
    config.chunkSize = 0 →
    config.chunkCount = 0 ∧
      config.endingBytes < 8 * config.threads
  unlimited :
    config.bytes = 0 →
    config.chunkSize = maxChunkSize ∧
      config.chunkCount = 0 ∧ config.endingBytes = 0

/-- A configuration before `compute_chunk_size`: no chunk fields set yet. -/
structure Cnf.Unsplit (config : Cnf) : Prop where
  threadsPositive : 1 ≤ config.threads
  threadsBounded : config.threads ≤ maxThreads
  bytesBounded : config.bytes < sizeModulus
  noCount : config.chunkCount = 0
  noEnding : config.endingBytes = 0

theorem shareOfThread_le_max (blocks threads : Nat) :
    shareOfThread blocks threads ≤ maxChunkSize := by
  unfold shareOfThread
  split <;> omega

/-- The shares of all threads do not exceed the blocks. -/
theorem shareOfThread_mul_le (blocks threads : Nat) :
    shareOfThread blocks threads * threads ≤ blocks := by
  have quotient := Nat.div_mul_le_self blocks threads
  unfold shareOfThread
  split
  · next capped =>
      exact Nat.le_trans
        (Nat.mul_le_mul_right threads (Nat.le_of_lt capped)) quotient
  · exact quotient

/-- A thread without a share means fewer blocks than threads. -/
theorem blocks_lt_of_shareOfThread_eq_zero
    {blocks threads : Nat}
    (positive : 1 ≤ threads)
    (noShare : shareOfThread blocks threads = 0) :
    blocks < threads := by
  unfold shareOfThread at noShare
  split at noShare
  · cases noShare
  · exact (Nat.div_eq_zero_iff_lt positive).mp noShare

/-- Chunks below the cap leave room for one round only. -/
theorem shareOfThread_full
    {blocks threads : Nat}
    (someShare : 0 < shareOfThread blocks threads)
    (positive : 1 ≤ threads)
    (rounds :
      1 < blocks / (shareOfThread blocks threads * threads)) :
    shareOfThread blocks threads = maxChunkSize := by
  by_cases capped : blocks / threads > maxChunkSize
  · exact if_pos capped
  · rw [show shareOfThread blocks threads = blocks / threads from
      if_neg capped] at *
    have above := Nat.lt_div_mul_add positive (a := blocks)
    have oneShare : threads ≤ blocks / threads * threads :=
      Nat.le_mul_of_pos_left threads someShare
    have roundPositive : 0 < blocks / threads * threads :=
      Nat.lt_of_lt_of_le positive oneShare
    have twoRounds :=
      (Nat.le_div_iff_mul_le roundPositive).mp rounds
    omega

/--
Taking the amount modulo the full rounds is subtracting them, because the
full rounds make up more than half of the amount.
-/
theorem mod_fullRounds
    {bytes round : Nat}
    (roundPositive : 0 < round)
    (fits : round ≤ bytes / 8) :
    bytes % (bytes / 8 / round * round * 8) =
        bytes - bytes / 8 / round * round * 8 ∧
      bytes / 8 / round * round * 8 ≤ bytes ∧
      bytes - bytes / 8 / round * round * 8 < 8 * round := by
  have count : 1 ≤ bytes / 8 / round :=
    (Nat.one_le_div_iff roundPositive).mpr fits
  have below := Nat.div_mul_le_self (bytes / 8) round
  have above := Nat.lt_div_mul_add roundPositive (a := bytes / 8)
  have oneRound : round ≤ bytes / 8 / round * round :=
    Nat.le_mul_of_pos_left round count
  generalize bytes / 8 / round * round = full at *
  refine ⟨?_, by omega, by omega⟩
  rw [Nat.mod_eq_sub_mod (by omega), Nat.mod_eq_of_lt (by omega)]

/-- Full rounds of some share, and what is left after them. -/
theorem computeChunkSize_split_rounds
    {config : Cnf}
    (unsplit : config.Unsplit)
    (someBytes : config.bytes > 0)
    (someShare :
      shareOfThread (config.bytes / 8) config.threads > 0) :
    (computeChunkSize config).Split := by
  obtain ⟨positive, bounded, bytesBounded, noCount, noEnding⟩ := unsplit
  unfold computeChunkSize
  rw [if_pos someBytes]
  simp only
  rw [if_pos someShare]
  have capped := shareOfThread_le_max (config.bytes / 8) config.threads
  have shares := shareOfThread_mul_le (config.bytes / 8) config.threads
  have full :
      1 < config.bytes / 8 /
          (shareOfThread (config.bytes / 8) config.threads *
            config.threads) →
        shareOfThread (config.bytes / 8) config.threads =
          maxChunkSize := shareOfThread_full someShare positive
  generalize
    shareOfThread (config.bytes / 8) config.threads = share at *
  have roundPositive : 0 < share * config.threads :=
    Nat.mul_pos someShare positive
  have roundFits :
      share * config.threads % sizeModulus = share * config.threads :=
    Nat.mod_eq_of_lt (by omega)
  obtain ⟨ending, fullFits, endingSmall⟩ :=
    mod_fullRounds roundPositive shares
  have reorder :
      ∀ count,
        share * count * config.threads * 8 =
          count * (share * config.threads) * 8 := by
    intro count
    ring
  have count := (Nat.one_le_div_iff roundPositive).mpr shares
  rw [roundFits, reorder,
    Nat.mod_eq_of_lt (Nat.lt_of_le_of_lt fullFits bytesBounded),
    ending]
  refine ⟨positive, bounded, bytesBounded, capped, ?_, ?_, full, ?_, ?_⟩
  · intro _
    simp only [Cnf.roundBytes]
    rw [show ∀ round count, 8 * round * count = count * round * 8
      by intro round count; ring]
    omega
  · intro _ _
    exact ⟨count, endingSmall⟩
  · intro noShare
    exact absurd noShare (Nat.pos_iff_ne_zero.mp someShare)
  · intro noBytes
    exact absurd noBytes (Nat.pos_iff_ne_zero.mp someBytes)

/-- An amount with no block for some thread is all ending. -/
theorem computeChunkSize_split_ending
    {config : Cnf}
    (unsplit : config.Unsplit)
    (someBytes : config.bytes > 0)
    (noShare :
      shareOfThread (config.bytes / 8) config.threads = 0) :
    (computeChunkSize config).Split := by
  obtain ⟨positive, bounded, bytesBounded, noCount, noEnding⟩ := unsplit
  have few := blocks_lt_of_shareOfThread_eq_zero positive noShare
  unfold computeChunkSize
  rw [if_pos someBytes]
  simp only
  rw [if_neg (by omega)]
  refine
    ⟨positive, bounded, bytesBounded,
      shareOfThread_le_max _ _, ?_, ?_, ?_, ?_, ?_⟩
  · intro _
    simp [Cnf.roundBytes, noShare]
  · intro _ someShare
    exact absurd noShare (Nat.pos_iff_ne_zero.mp someShare)
  · simp [noCount]
  · intro _
    refine ⟨noCount, ?_⟩
    simp only
    omega
  · intro noBytes
    exact absurd noBytes (Nat.pos_iff_ne_zero.mp someBytes)

/-- `compute_chunk_size` splits every amount exactly. -/
theorem computeChunkSize_split
    {config : Cnf}
    (unsplit : config.Unsplit) :
    (computeChunkSize config).Split := by
  by_cases someBytes : config.bytes > 0
  · rcases Nat.eq_zero_or_pos
      (shareOfThread (config.bytes / 8) config.threads) with
      noShare | someShare
    · exact computeChunkSize_split_ending unsplit someBytes noShare
    · exact computeChunkSize_split_rounds unsplit someBytes someShare
  · unfold computeChunkSize
    rw [if_neg someBytes]
    refine
      ⟨unsplit.threadsPositive, unsplit.threadsBounded,
        unsplit.bytesBounded, Nat.le_refl _, ?_, ?_, ?_, ?_, ?_⟩
    · intro positive
      exact absurd positive someBytes
    · intro positive
      exact absurd positive someBytes
    · intro _
      rfl
    · intro noShare
      cases noShare
    · intro _
      exact ⟨rfl, unsplit.noCount, unsplit.noEnding⟩

/-- A round of all threads is at least one block each. -/
theorem Cnf.Split.roundBytes_pos
    {config : Cnf}
    (split : config.Split)
    (someShare : 0 < config.chunkSize) :
    8 ≤ config.roundBytes := by
  have blocks := Nat.mul_pos someShare split.threadsPositive
  unfold Cnf.roundBytes
  omega

/-- There are at most as many rounds as blocks. -/
theorem Cnf.Split.chunkCount_le
    {config : Cnf}
    (split : config.Split) :
    config.chunkCount ≤ config.bytes / 8 := by
  rcases Nat.eq_zero_or_pos config.bytes with noBytes | someBytes
  · have unlimited := split.unlimited noBytes
    omega
  · rcases Nat.eq_zero_or_pos config.chunkSize with noShare | someShare
    · have noRounds := split.noRounds noShare
      omega
    · have exactly := split.exactly someBytes
      have blocks :=
        Nat.mul_le_mul_right config.chunkCount
          (split.roundBytes_pos someShare)
      omega

/-- The rounds of an amount that needs more than one, by its size alone. -/
theorem Cnf.Split.chunkCount_eq
    {config : Cnf}
    (split : config.Split)
    (rounds : 1 < config.chunkCount) :
    config.chunkCount =
      config.bytes / 8 / (maxChunkSize * config.threads) := by
  have capped := split.fullChunks rounds
  have positive := split.threadsPositive
  have someBytes : 0 < config.bytes := by
    have le := split.chunkCount_le
    omega
  have someShare : 0 < config.chunkSize := by
    rw [capped]
    decide
  have exactly := split.exactly someBytes
  have endingSmall := (split.rounds someBytes someShare).2
  unfold Cnf.roundBytes at exactly endingSmall
  rw [capped] at exactly endingSmall
  have roundPositive : 0 < maxChunkSize * config.threads :=
    Nat.mul_pos (by decide) positive
  rw [Nat.div_div_eq_div_mul, eq_comm]
  apply Nat.div_eq_of_lt_le
  · rw [Nat.mul_comm]
    omega
  · rw [Nat.mul_comm, Nat.mul_succ]
    omega

/-- An amount of at most one round has fewer than two rounds at the cap. -/
theorem Cnf.Split.cappedRounds_lt
    {config : Cnf}
    (split : config.Split)
    (oneRound : config.chunkCount ≤ 1) :
    config.bytes / 8 / (maxChunkSize * config.threads) < 2 := by
  have positive := split.threadsPositive
  have roundPositive : 0 < maxChunkSize * config.threads :=
    Nat.mul_pos (by decide) positive
  have capped :=
    Nat.mul_le_mul_right config.threads split.chunkBounded
  rw [Nat.div_div_eq_div_mul, Nat.div_lt_iff_lt_mul (by omega)]
  rcases Nat.eq_zero_or_pos config.bytes with noBytes | someBytes
  · omega
  · have exactly := split.exactly someBytes
    have endingSmall :
        config.endingBytes < 8 * (maxChunkSize * config.threads) := by
      rcases Nat.eq_zero_or_pos config.chunkSize with noShare | someShare
      · have few := (split.noRounds noShare).2
        have blocks : config.threads ≤ maxChunkSize * config.threads :=
          Nat.le_mul_of_pos_left _ (by decide)
        omega
      · have endingSmall := (split.rounds someBytes someShare).2
        unfold Cnf.roundBytes at endingSmall
        omega
    have rounds :
        config.roundBytes * config.chunkCount ≤
          config.roundBytes * 1 :=
      Nat.mul_le_mul_left config.roundBytes oneRound
    unfold Cnf.roundBytes at *
    omega

/-- `aes_thread`. -/
def Cnf.aesThread (config : Cnf) : Nat :=
  if config.aesFlag then 1 else 0

theorem Cnf.aesThread_le (config : Cnf) : config.aesThread ≤ 1 := by
  unfold Cnf.aesThread
  split <;> omega

/-- The passes of a finite loop do not wrap around a `size_t`. -/
theorem Cnf.Split.passes_lt
    {config : Cnf}
    (split : config.Split) :
    config.chunkCount + config.aesThread < sizeModulus := by
  have count := split.chunkCount_le
  have bounded := split.bytesBounded
  have thread := config.aesThread_le
  unfold sizeModulus at *
  omega

/-- Whether an `unsigned int` can count the passes, by the amount alone. -/
theorem Cnf.Split.passes_lt_iff
    {config : Cnf}
    (split : config.Split) :
    config.chunkCount + config.aesThread < uintModulus ↔
      config.bytes / 8 / (maxChunkSize * config.threads) +
        config.aesThread < uintModulus := by
  by_cases rounds : 1 < config.chunkCount
  · rw [split.chunkCount_eq rounds]
  · have few := split.cappedRounds_lt (Nat.not_lt.mp rounds)
    have thread := config.aesThread_le
    have uintLarge : 3 < uintModulus := by
      decide
    constructor
    · intro _
      omega
    · intro _
      omega

/-- The ending is an `unsigned int` number of bytes. -/
theorem Cnf.Split.endingBytes_lt
    {config : Cnf}
    (split : config.Split) :
    config.endingBytes < uintModulus := by
  have bounded := split.threadsBounded
  have capped :=
    Nat.mul_le_mul split.chunkBounded split.threadsBounded
  unfold maxThreads maxChunkSize uintModulus at *
  rcases Nat.eq_zero_or_pos config.bytes with noBytes | someBytes
  · have unlimited := split.unlimited noBytes
    omega
  · rcases Nat.eq_zero_or_pos config.chunkSize with noShare | someShare
    · have few := (split.noRounds noShare).2
      omega
    · have endingSmall := (split.rounds someBytes someShare).2
      unfold Cnf.roundBytes at endingSmall
      omega

/-- Full rounds are whole words, so the ending has the rest of the amount. -/
theorem Cnf.Split.endingBytes_mod
    {config : Cnf}
    (split : config.Split)
    (someBytes : 0 < config.bytes) :
    config.endingBytes % 8 = config.bytes % 8 := by
  have exactly := split.exactly someBytes
  unfold Cnf.roundBytes at exactly
  rw [← exactly, Nat.mul_assoc, Nat.mul_add_mod]

/--
What `compute_chunk_size` makes of an amount: full rounds of all threads and
an ending make up the amount exactly, no product in between wraps around, and
both sizes that are generated later are `unsigned int` numbers of bytes.
-/
structure Cnf.SplitLaw (config split : Cnf) : Prop where
  sameAmount : split.bytes = config.bytes
  sameThreads : split.threads = config.threads
  chunkBounded : split.chunkSize ≤ maxChunkSize
  exactly :
    8 * split.chunkSize * split.threads * split.chunkCount +
        split.endingBytes =
      config.bytes
  roundFits : split.chunkSize * split.threads < sizeModulus
  roundsFit :
    split.chunkSize * split.chunkCount < sizeModulus ∧
      split.chunkSize * split.chunkCount * split.threads <
        sizeModulus ∧
      split.chunkSize * split.chunkCount * split.threads * 8 <
        sizeModulus
  rounds :
    0 < split.chunkSize →
    1 ≤ split.chunkCount ∧
      split.endingBytes < 8 * split.chunkSize * split.threads
  noRounds :
    split.chunkSize = 0 →
    split.chunkCount = 0 ∧
      split.endingBytes = config.bytes ∧
      config.bytes < 8 * split.threads
  chunkArgument : split.chunkSize * 8 < uintModulus
  endingArgument : split.endingBytes < uintModulus

theorem computeChunkSize_bytes (config : Cnf) :
    (computeChunkSize config).bytes = config.bytes := by
  unfold computeChunkSize
  split
  · simp only
    split <;> rfl
  · rfl

theorem computeChunkSize_threads (config : Cnf) :
    (computeChunkSize config).threads = config.threads := by
  unfold computeChunkSize
  split
  · simp only
    split <;> rfl
  · rfl

/-- The rounds of a split, as the product is computed, do not wrap. -/
theorem Cnf.Split.products_lt
    {config : Cnf}
    (split : config.Split)
    (someBytes : 0 < config.bytes) :
    config.chunkSize * config.chunkCount < sizeModulus ∧
      config.chunkSize * config.chunkCount * config.threads <
        sizeModulus ∧
      config.chunkSize * config.chunkCount * config.threads * 8 <
        sizeModulus := by
  have exactly := split.exactly someBytes
  have bounded := split.bytesBounded
  have whole :
      config.chunkSize * config.chunkCount * config.threads * 8 =
        config.roundBytes * config.chunkCount := by
    unfold Cnf.roundBytes
    ring
  have shares :
      config.chunkSize * config.chunkCount ≤
        config.chunkSize * config.chunkCount * config.threads :=
    Nat.le_mul_of_pos_right _ split.threadsPositive
  omega

/--
`compute_chunk_size` splits every amount of a `size_t` among 1 to 16384
threads exactly, with no product wrapping around.
-/
theorem computeChunkSize_splitLaw
    {config : Cnf}
    (unsplit : config.Unsplit)
    (someBytes : 0 < config.bytes) :
    config.SplitLaw (computeChunkSize config) := by
  have split := computeChunkSize_split unsplit
  have sameAmount := computeChunkSize_bytes config
  have sameThreads := computeChunkSize_threads config
  have someAmount : 0 < (computeChunkSize config).bytes := by
    rw [sameAmount]
    exact someBytes
  have exactly := split.exactly someAmount
  have capped := split.chunkBounded
  have round :
      (computeChunkSize config).roundBytes =
        8 * (computeChunkSize config).chunkSize *
          (computeChunkSize config).threads := by
    rw [Cnf.roundBytes, Nat.mul_assoc]
  have shares :
      (computeChunkSize config).chunkSize *
          (computeChunkSize config).threads ≤
        maxChunkSize * maxThreads :=
    Nat.mul_le_mul capped split.threadsBounded
  rw [round, sameAmount] at exactly
  refine
    { sameAmount := sameAmount
      sameThreads := sameThreads
      chunkBounded := capped
      exactly := exactly
      roundFits := Nat.lt_of_le_of_lt shares (by decide)
      roundsFit := split.products_lt someAmount
      rounds := ?_
      noRounds := ?_
      chunkArgument := ?_
      endingArgument := split.endingBytes_lt }
  · intro someShare
    obtain ⟨count, endingSmall⟩ := split.rounds someAmount someShare
    rw [round] at endingSmall
    exact ⟨count, endingSmall⟩
  · intro noShare
    obtain ⟨noCount, few⟩ := split.noRounds noShare
    rw [noCount, Nat.mul_zero, Nat.zero_add] at exactly
    rw [exactly] at few
    exact ⟨noCount, exactly, few⟩
  · unfold maxChunkSize at capped
    unfold uintModulus
    omega

/-- An amount of 3705 bytes for two threads. -/
theorem computeChunkSize_splitLaw_twoThreads :
    Cnf.SplitLaw { defaultConfigSetting with bytes := 3705 }
      (computeChunkSize { defaultConfigSetting with bytes := 3705 }) :=
  computeChunkSize_splitLaw
    { threadsPositive := by decide
      threadsBounded := by decide
      bytesBounded := by decide
      noCount := rfl
      noEnding := rfl }
    (by decide)

end RdRand
