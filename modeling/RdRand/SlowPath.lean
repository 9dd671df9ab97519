import RdRand.ChunkFreshness

namespace RdRand

/-!
# The calls of the slow path

A single thread whose buffer comes short retries for the rest of it.  The
number of words counted so far is passed as an offset in bytes, and is
subtracted as a number of bytes from the size of the buffer in words: no
retry ever targets the rest of the buffer.
-/

open ControlLoop

/--
A retry of the slow path: the words counted before it, the byte of
`gen_current` where it begins, and its size argument.
-/
structure SlowCall where
  written : Nat
  target : Nat
  size : Nat
  deriving Repr, DecidableEq

/-- The retry made when so many words have been counted. -/
def slowCall (config : Cnf) (written : Nat) : SlowCall where
  written := written
  target := written
  size := slowSize config written

/-- The retries of a slow path, by the words that each of them would get. -/
def slowCalls (config : Cnf) (bufSize : Nat) :
    List Nat → Nat → List SlowCall
  | [], _ => []
  | words :: later, written =>
      if written = bufSize then
        []
      else
        slowCall config written ::
          slowCalls config bufSize later (written + words)

/-- The words counted after the retries. -/
def slowWritten (bufSize : Nat) : List Nat → Nat → Nat
  | [], written => written
  | words :: later, written =>
      if written = bufSize then
        written
      else
        slowWritten bufSize later (written + words)

/--
What the retries should do: each targets the bytes that are not counted yet,
inside the buffer and with a size that does not wrap, and where all words are
counted in the end, all bytes have been targeted.
-/
structure SlowLaw
    (config : Cnf)
    (bufSize : Nat)
    (results : List Nat)
    (written : Nat) : Prop where
  exactly :
    ∀ call ∈ slowCalls config bufSize results written,
      call.target = 8 * call.written ∧
        call.target + call.size = 8 * bufSize
  inside :
    ∀ call ∈ slowCalls config bufSize results written,
      call.target + call.size ≤ 8 * bufSize
  noWrap :
    ∀ call ∈ slowCalls config bufSize results written,
      call.size + 8 * call.written =
        config.threads * config.chunkSize
  whole :
    slowWritten bufSize results written = bufSize →
    ∀ byte,
      8 * written ≤ byte →
      byte < 8 * bufSize →
      ∃ call ∈ slowCalls config bufSize results written,
        call.target ≤ byte ∧ byte < call.target + call.size

section Calls

variable {config : Cnf} {bufSize written : Nat}

/-- A slow path that is entered makes a retry first. -/
theorem slowCalls_head
    {results : List Nat}
    (cycles : results.length = slowRetryLimitCycles)
    (short : written < bufSize) :
    slowCall config written ∈
      slowCalls config bufSize results written := by
  cases results with
  | nil =>
      cases cycles
  | cons words later =>
      rw [slowCalls, if_neg (Nat.ne_of_lt short)]
      exact List.mem_cons_self

/-- Before anything is counted, the size is the number of words. -/
theorem slowSize_zero_le (config : Cnf) :
    slowSize config 0 ≤ config.threads * config.chunkSize := by
  unfold slowSize
  refine Nat.le_trans (Nat.mod_le _ _) ?_
  rw [Nat.zero_mul, Nat.zero_mod, Nat.sub_zero, Nat.add_mod_right]
  exact Nat.mod_le _ _

/-- The size argument of a single thread that got more than nothing. -/
theorem slowSize_oneThread
    (oneThread : config.threads = 1)
    (bounded : config.chunkSize ≤ maxChunkSize)
    (short : written < config.chunkSize) :
    slowSize config written =
      if 8 * written ≤ config.chunkSize then
        config.chunkSize - 8 * written
      else
        uintModulus + config.chunkSize - 8 * written := by
  unfold maxChunkSize at bounded
  unfold slowSize
  rw [oneThread]
  unfold uintModulus sizeModulus
  split
  · omega
  · omega

/--
The retry of a single thread stays inside its buffer exactly where at most an
eighth of the words has been counted; past that its size has wrapped around.
-/
theorem slowCall_inside_iff
    (oneThread : config.threads = 1)
    (bounded : config.chunkSize ≤ maxChunkSize)
    (short : written < config.chunkSize) :
    (slowCall config written).target + (slowCall config written).size ≤
        8 * config.chunkSize ↔
      8 * written ≤ config.chunkSize := by
  have size := slowSize_oneThread oneThread bounded short
  unfold maxChunkSize at bounded
  simp only [slowCall, size]
  unfold uintModulus
  split
  · omega
  · omega

/-- No retry targets exactly the bytes that are not counted yet. -/
theorem slowCall_not_exact
    (size : bufSize = config.chunkSize * config.threads)
    (short : written < bufSize) :
    ¬ ((slowCall config written).target = 8 * written ∧
        (slowCall config written).target +
            (slowCall config written).size =
          8 * bufSize) := by
  rintro ⟨offset, rest⟩
  simp only [slowCall] at offset rest
  have nothing : written = 0 := by
    omega
  subst written
  have few := slowSize_zero_le config
  rw [Nat.mul_comm, ← size] at few
  omega

end Calls

section Refill

variable {Aes : Type} (env : Environment)

/-- The words that the retries of a slow refill get from the device. -/
def slowResults
    (state : ChunkState Aes) : Nat → SlowFill → List Nat
  | 0, _ => []
  | cycles + 1, slow =>
      let call := slowCall state.config slow.written
      let fill :=
        generateWithMetod env.device state.config call.target call.size
          slowRetryLimit slow.position
      (fill.generated / 8) ::
        slowResults state cycles
          { written := slow.written + fill.generated / 8
            contents := fill.applyTo slow.contents
            position := fill.position }

theorem slowResults_length
    (state : ChunkState Aes)
    (cycles : Nat)
    (slow : SlowFill) :
    (slowResults env state cycles slow).length = cycles := by
  induction cycles generalizing slow with
  | zero =>
      rfl
  | succ cycles inductionHypothesis =>
      exact congrArg (· + 1) (inductionHypothesis _)

/-- The slow refill of the generator makes these retries. -/
theorem slowRefill_written
    (state : ChunkState Aes)
    (cycles : Nat)
    (slow : SlowFill) :
    (slowRefill env state cycles slow).written =
      slowWritten state.bufSize (slowResults env state cycles slow)
        slow.written := by
  induction cycles generalizing slow with
  | zero =>
      rfl
  | succ cycles inductionHypothesis =>
      rw [slowRefill, slowResults, slowWritten]
      split
      · rfl
      · exact inductionHypothesis _

/-- No slow path of the generator does what it should. -/
theorem slowPath_never_lawful
    {state : ChunkState Aes}
    (arrays : state.Arrays)
    {slow : SlowFill}
    (short : slow.written < state.bufSize) :
    ¬ SlowLaw state.config state.bufSize
      (slowResults env state slowRetryLimitCycles slow)
      slow.written := by
  intro law
  have cycles := slowResults_length env state slowRetryLimitCycles slow
  exact
    slowCall_not_exact arrays.size short
      (law.exactly _ (slowCalls_head cycles short))

end Refill

end RdRand
