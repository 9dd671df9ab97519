import RdRand.ChunkTermination
import RdRand.FileWrite
import RdRand.ReseedMethods
import RdRand.ByteFill

namespace RdRand

/-!
# The amount returned

`generate_chunk` returns what `fwrite` has accepted, on all of its exits.
`generate_ending` returns what it has generated where that comes short, and
then nothing of it is written: the sum of the two is the amount written exactly
where the ending gets all of its values or none.
-/

open ControlLoop

section Pieces

variable
  {acquire : Nat → Acquisition}
  {segments : List (List Nat)}
  {dest position final : Nat}
  {stores : List Store}

/-- The number of bytes that some stores write. -/
def bytesOf (stores : List Store) : Nat :=
  (stores.map fun store => store.bytes.length).sum

/-- A run stores no more than its segments. -/
theorem SegmentRun.bytesOf_le
    (run : SegmentRun acquire segments dest position stores final)
    (small : ∀ piece ∈ segments.flatten, piece ≤ 8) :
    bytesOf stores ≤ segments.flatten.sum := by
  induction run with
  | finished =>
      exact Nat.le_refl 0
  | next run inductionHypothesis =>
      exact inductionHypothesis small
  | served saved run inductionHypothesis =>
      obtain ⟨firstSmall, restSmall⟩ := List.forall_mem_cons.mp small
      have later := inductionHypothesis restSmall
      simp only [bytesOf, List.map_cons, List.sum_cons,
        List.length_take, wordBytes_length, Nat.min_eq_left firstSmall,
        List.flatten_cons, List.cons_append] at later ⊢
      omega
  | @short piece rest later _ _ _ _ missed run inductionHypothesis =>
      have laterSmall :=
        (List.forall_mem_append.mp
          (show ∀ other ∈ (piece :: rest) ++ later.flatten, other ≤ 8
            from small)).2
      have bounded := inductionHypothesis laterSmall
      rw [List.flatten_cons, List.sum_append]
      omega

/-- A run stores all its segments exactly where no acquisition comes short. -/
theorem SegmentRun.whole_iff
    (run : SegmentRun acquire segments dest position stores final)
    (small : ∀ piece ∈ segments.flatten, piece ≤ 8)
    (positive : ∀ piece ∈ segments.flatten, 0 < piece) :
    bytesOf stores = segments.flatten.sum ↔
      AllServed acquire segments.flatten position := by
  induction run with
  | finished =>
      exact ⟨fun _ => trivial, fun _ => rfl⟩
  | next run inductionHypothesis =>
      exact inductionHypothesis small positive
  | @served piece rest later _ _ _ stores value saved run
      inductionHypothesis =>
      obtain ⟨firstSmall, restSmall⟩ := List.forall_mem_cons.mp small
      obtain ⟨_, restPositive⟩ := List.forall_mem_cons.mp positive
      have others := inductionHypothesis restSmall restPositive
      simp only [bytesOf, List.map_cons, List.sum_cons,
        List.length_take, wordBytes_length, Nat.min_eq_left firstSmall,
        List.flatten_cons, List.cons_append, AllServed, saved,
        Option.isSome_some, true_and] at others ⊢
      rw [← others]
      omega
  | @short piece rest later _ _ _ stores missed run
      inductionHypothesis =>
      have firstPositive : 0 < piece := positive piece (by simp)
      have laterSmall :=
        (List.forall_mem_append.mp
          (show ∀ other ∈ (piece :: rest) ++ later.flatten, other ≤ 8
            from small)).2
      have bounded := run.bytesOf_le laterSmall
      simp only [List.flatten_cons, List.cons_append, List.sum_cons,
        List.sum_append, AllServed, missed, Option.isSome_none,
        Bool.false_eq_true, false_and, iff_false]
      omega

/-- A run stores no byte exactly where all its segments are starved. -/
theorem SegmentRun.bytesOf_eq_zero_iff
    (run : SegmentRun acquire segments dest position stores final)
    (small : ∀ piece ∈ segments.flatten, piece ≤ 8)
    (positive : ∀ piece ∈ segments.flatten, 0 < piece) :
    bytesOf stores = 0 ↔ Starved acquire segments position := by
  rw [← run.stores_nil_iff]
  constructor
  · intro noByte
    cases stores with
    | nil =>
        rfl
    | cons store others =>
        have length :=
          CellMemory.length_mem_of_mem_extents _
            (run.extent_mem small List.mem_cons_self)
        have some := positive _ length
        simp only [Store.extent] at some
        simp only [bytesOf, List.map_cons, List.sum_cons] at noByte
        omega
  · rintro rfl
    rfl

end Pieces

section Method

/-- The acquisition that `generate_with_metod` repeats. -/
def acquireWithMetod
    (device : Device)
    (retry : Int) : Method → Nat → Acquisition
  | .getBytes => acquireInline device (effectiveLimit retry)
  | .getReseed64Delay => acquireInline device (effectiveLimit retry)
  | .getReseed64Skip => acquireSkipping device retry
  | .methodsCount => acquireInline device (effectiveLimit retry)

/-- The pieces that `generate_with_metod` fills with one value each. -/
def segmentsWithMetod (buf blocks : Nat) : Method → List (List Nat)
  | .getBytes => (layoutOf buf blocks).segments
  | .getReseed64Delay => [List.replicate (blocks / 8) 8]
  | .getReseed64Skip => [List.replicate (blocks / 8) 8]
  | .methodsCount => []

variable (buf blocks : Nat)

theorem segmentsWithMetod_small (method : Method) :
    ∀ piece ∈ (segmentsWithMetod buf blocks method).flatten,
      piece ≤ 8 := by
  cases method with
  | getBytes =>
      exact (layoutOf buf blocks).segments_small
  | getReseed64Delay =>
      simp [segmentsWithMetod]
  | getReseed64Skip =>
      simp [segmentsWithMetod]
  | methodsCount =>
      simp [segmentsWithMetod]

theorem segmentsWithMetod_positive (method : Method) :
    ∀ piece ∈ (segmentsWithMetod buf blocks method).flatten,
      0 < piece := by
  cases method with
  | getBytes =>
      exact (layoutOf buf blocks).segments_positive
  | getReseed64Delay =>
      simp [segmentsWithMetod]
  | getReseed64Skip =>
      simp [segmentsWithMetod]
  | methodsCount =>
      simp [segmentsWithMetod]

/-- The pieces make up no more than the bytes asked for. -/
theorem segmentsWithMetod_le (method : Method) :
    (segmentsWithMetod buf blocks method).flatten.sum ≤ blocks := by
  have words : 8 * (blocks / 8) ≤ blocks := Nat.mul_div_le blocks 8
  cases method with
  | getBytes =>
      rw [segmentsWithMetod, Layout.segments_sum]
      exact layoutOf_le buf blocks
  | getReseed64Delay =>
      simpa [segmentsWithMetod, Nat.mul_comm] using words
  | getReseed64Skip =>
      simpa [segmentsWithMetod, Nat.mul_comm] using words
  | methodsCount =>
      simp [segmentsWithMetod]

variable {blocks}

/-- A service of words, counted in bytes, is a run of the words. -/
theorem serve_words_run
    (acquire : Nat → Acquisition)
    {words : Nat}
    (fits : 8 * words < uintModulus)
    (position : Nat) :
    SegmentRun acquire [List.replicate words 8] buf position
        (serve acquire (List.replicate words 8) buf
          position).inBytes.stores
        (serve acquire (List.replicate words 8) buf
          position).inBytes.position ∧
      (serve acquire (List.replicate words 8) buf
          position).inBytes.generated =
        bytesOf
          (serve acquire (List.replicate words 8) buf
            position).inBytes.stores := by
  have served :
      (serve acquire (List.replicate words 8) buf
        position).generated ≤ words := by
    simpa using
      serve_generated_le (List.replicate words 8) buf position
  have bytes :
      (serve acquire (List.replicate words 8) buf
        position).storedBytes = _ :=
    serve_words_storedBytes acquire words buf position
  refine ⟨serve_run acquire (List.replicate words 8) buf position, ?_⟩
  change
    8 * (serve acquire (List.replicate words 8) buf
        position).generated % uintModulus =
      (serve acquire (List.replicate words 8) buf position).storedBytes
  rw [bytes]
  exact Nat.mod_eq_of_lt (by omega)

/-- `generate_with_metod` is a run of its pieces, and returns what it stores. -/
theorem generateWithMetod_run
    (device : Device)
    (config : Cnf)
    (fits : blocks < uintModulus)
    (retry : Int)
    (position : Nat) :
    SegmentRun (acquireWithMetod device retry config.method)
        (segmentsWithMetod buf blocks config.method) buf position
        (generateWithMetod device config buf blocks retry
          position).stores
        (generateWithMetod device config buf blocks retry
          position).position ∧
      (generateWithMetod device config buf blocks retry
          position).generated =
        bytesOf
          (generateWithMetod device config buf blocks retry
            position).stores := by
  have wordsFit : 8 * (blocks / 8) < uintModulus :=
    Nat.lt_of_le_of_lt (Nat.mul_div_le blocks 8) fits
  unfold generateWithMetod
  cases config.method with
  | getBytes =>
      exact rdrandGetBytesRetry_run device buf blocks retry position
  | getReseed64Delay =>
      simp only [reseedDelay_eq, rdrandGetUint64ArrayRetry,
        fillWords_eq_serve
          (acquireInline_sound device (effectiveLimit retry))]
      exact serve_words_run buf _ wordsFit position
  | getReseed64Skip =>
      simp only [reseedSkip_eq_serve]
      exact serve_words_run buf _ wordsFit position
  | methodsCount =>
      exact ⟨.finished, rfl⟩

/-- What `generate_with_metod` returns where it gets all its values or none. -/
theorem generateWithMetod_generated_iff
    (device : Device)
    (config : Cnf)
    (fits : blocks < uintModulus)
    (retry : Int)
    (position : Nat) :
    ((generateWithMetod device config buf blocks retry
        position).generated = 0 ↔
      Starved (acquireWithMetod device retry config.method)
        (segmentsWithMetod buf blocks config.method) position) ∧
    ((generateWithMetod device config buf blocks retry
        position).generated = blocks ↔
      AllServed (acquireWithMetod device retry config.method)
          (segmentsWithMetod buf blocks config.method).flatten
          position ∧
        (segmentsWithMetod buf blocks config.method).flatten.sum =
          blocks) := by
  obtain ⟨run, generated⟩ :=
    generateWithMetod_run buf device config fits retry position
  have small := segmentsWithMetod_small buf blocks config.method
  have positive := segmentsWithMetod_positive buf blocks config.method
  have total := segmentsWithMetod_le buf blocks config.method
  have stored := run.bytesOf_le small
  rw [generated, run.bytesOf_eq_zero_iff small positive,
    ← run.whole_iff small positive]
  refine ⟨Iff.rfl, ?_, ?_⟩
  · intro whole
    omega
  · rintro ⟨whole, all⟩
    rw [whole, all]

end Method

section Returned

variable
  {Aes : Type}
  {env : Environment}
  {encBuffer : EncBuffer Aes}

/-- `written_total` counts the words in the output, in a `size_t`. -/
def ChunkState.Tallied (state : ChunkState Aes) : Prop :=
  ∃ words,
    outputLength state.trace = 8 * words ∧
      state.writtenTotal = words % sizeModulus

/-- A state with the same output and the same total is tallied alike. -/
theorem ChunkState.Tallied.congr
    {first second : ChunkState Aes}
    (tallied : first.Tallied)
    (sameOutput : outputLength second.trace = outputLength first.trace)
    (sameTotal : second.writtenTotal = first.writtenTotal) :
    second.Tallied := by
  obtain ⟨words, output, total⟩ := tallied
  exact ⟨words, sameOutput.trans output, sameTotal.trans total⟩

/-- What `fwrite` accepts of a prepared buffer is added to the total. -/
theorem ChunkState.Tallied.afterWrite
    {state : ChunkState Aes}
    (tallied : state.Tallied) :
    (state.prepared.afterWrite env).Tallied := by
  obtain ⟨words, output, total⟩ := tallied
  refine
    ⟨words + env.accepts state.writes state.bufSize, ?_, ?_⟩
  · rw [afterWrite_outputLength, output, Nat.mul_add]
  · simp only [ChunkState.afterWrite, prepared_writtenTotal,
      prepared_writes, prepared_bufSize, total, Nat.mod_add_mod]

/-- A finishing pass leaves the output and the total to its write. -/
theorem Finishing.tallied
    {state base : ChunkState Aes}
    (arrays : state.Arrays)
    (tallied : state.Tallied)
    (finishing : Finishing env encBuffer state base) :
    base.Tallied := by
  refine tallied.congr ?_ finishing.sameSetup.writtenTotal
  rw [finishing.trace]
  exact congrArg List.length (parallelFor_outputCells arrays)

/-- A finished pass is tallied, whether it writes or not. -/
theorem ChunkState.Tallied.finished
    {state : ChunkState Aes}
    (tallied : state.Tallied) :
    (state.finished env).Tallied := by
  unfold ChunkState.finished
  split
  · refine tallied.congr ?_ (prepared_writtenTotal state)
    exact prepared_outputLength state
  · exact tallied.afterWrite.congr rfl rfl

/-- Wherever the chunk loop ends up, its total is that of its output. -/
theorem generateChunk_tallied
    (env : Environment)
    (encBuffer : EncBuffer Aes)
    (config : Cnf)
    (aes : Aes)
    (passes : Nat) :
    (generateChunk env encBuffer config aes passes).state.Tallied := by
  refine Loop.run_invariant ChunkState.Tallied passes
    ⟨0, rfl, rfl⟩ ?_ ?_
  · intro earlier before after _ run _ pass tallied
    have arrays := (chunkLoop_setup run).arrays
    cases chunkPass_again pass with
    | rerun underflows threads result =>
        rw [result]
        exact
          tallied.congr
            (congrArg List.length (parallelFor_outputCells arrays)) rfl
    | finish base finishing writes result =>
        rw [result]
        exact (finishing.tallied arrays tallied).finished
  · intro earlier before final exit _ run _ pass tallied
    have arrays := (chunkLoop_setup run).arrays
    cases chunkPass_leave pass with
    | hardwareProblem underflows oneThread short =>
        exact
          tallied.congr
            (congrArg List.length (parallelFor_outputCells arrays)) rfl
    | shortWrite base finishing writes short =>
        exact (finishing.tallied arrays tallied).afterWrite

/-- The bytes that `generate_ending` generates. -/
def ChunkState.endingGenerated
    (env : Environment)
    (state : ChunkState Aes) : Nat :=
  (generateWithMetod env.device state.config env.endingAddress
    (state.config.endingBytes % uintModulus) retryLimit
    state.position).generated

/-- What `generate_ending` writes and returns, by what it generates. -/
theorem generateEnding_cases
    (env : Environment)
    (encBuffer : EncBuffer Aes)
    (state : ChunkState Aes) :
    (state.endingGenerated env = state.config.endingBytes ∧
      outputLength (generateEnding env encBuffer state).trace =
        outputLength state.trace +
          (generateEnding env encBuffer state).returned ∧
      (generateEnding env encBuffer state).returned ≤
        state.config.endingBytes) ∨
    (state.endingGenerated env ≠ state.config.endingBytes ∧
      (generateEnding env encBuffer state).trace = state.trace ∧
      (generateEnding env encBuffer state).returned =
        state.endingGenerated env) := by
  have accepted :=
    env.accepts_le state.writes state.config.endingBytes
  unfold ChunkState.endingGenerated generateEnding
  simp only
  split
  · next short =>
      exact .inr ⟨short, rfl, rfl⟩
  · next whole =>
      refine .inl ⟨not_not.mp whole, ?_⟩
      refine ⟨?_, accepted⟩
      simp only [outputLength]
      cases state.config.aesFlag <;> simp [accepted]

/-- The ending gets all the values it asks for, and they make it up, or none. -/
def EndingAllOrNothing
    (env : Environment)
    (state : ChunkState Aes) : Prop :=
  let acquire :=
    acquireWithMetod env.device retryLimit state.config.method
  let segments :=
    segmentsWithMetod env.endingAddress
      (state.config.endingBytes % uintModulus) state.config.method
  Starved acquire segments state.position ∨
    AllServed acquire segments.flatten state.position ∧
      segments.flatten.sum = state.config.endingBytes

/-- The ending generates no more than it asks for. -/
theorem endingGenerated_le (state : ChunkState Aes) :
    state.endingGenerated env ≤
      state.config.endingBytes % uintModulus :=
  (generateWithMetod_sound env.device state.config env.endingAddress
    (Nat.mod_lt _ (by decide)) retryLimit state.position).bounded

/-- What the ending generates is all of it, or nothing. -/
theorem endingAllOrNothing_iff (state : ChunkState Aes) :
    EndingAllOrNothing env state ↔
      state.endingGenerated env = 0 ∨
        state.endingGenerated env = state.config.endingBytes := by
  have fits : state.config.endingBytes % uintModulus < uintModulus :=
    Nat.mod_lt _ (by decide)
  have atMost :=
    Nat.mod_le state.config.endingBytes uintModulus
  have total :=
    segmentsWithMetod_le env.endingAddress
      (state.config.endingBytes % uintModulus) state.config.method
  have bounded :
      state.endingGenerated env ≤
        state.config.endingBytes % uintModulus :=
    endingGenerated_le state
  obtain ⟨none, all⟩ :=
    generateWithMetod_generated_iff env.endingAddress env.device
      state.config fits retryLimit state.position
  unfold EndingAllOrNothing
  unfold ChunkState.endingGenerated at bounded ⊢
  simp only
  rw [← none]
  constructor
  · rintro (nothing | ⟨served, whole⟩)
    · exact .inl nothing
    · have exact : state.config.endingBytes % uintModulus =
          state.config.endingBytes := by
        omega
      exact .inr ((all.mpr ⟨served, by rw [whole, exact]⟩).trans exact)
  · rintro (nothing | whole)
    · exact .inl nothing
    · have exact : state.config.endingBytes % uintModulus =
          state.config.endingBytes := by
        omega
      obtain ⟨served, makesUp⟩ := all.mp (whole.trans exact.symm)
      exact .inr ⟨served, makesUp.trans exact⟩

/-- `generate` ends with `generate_ending`, where the chunk loop has ended. -/
theorem generate_ended
    {config : Cnf}
    {aes : Aes}
    {passes : Nat}
    {generated : Generated Aes}
    (ended :
      generate env encBuffer config aes passes = some generated) :
    ∃ exit,
      generated =
        finishGenerate env encBuffer exit
          (generateChunk env encBuffer config aes passes).state := by
  unfold generate at ended
  cases status : generateChunk env encBuffer config aes passes with
  | running current =>
      simp [status] at ended
  | finished final =>
      simp only [status, Option.some.injEq] at ended
      exact ⟨none, ended.symm⟩
  | left exit final =>
      simp only [status, Option.some.injEq] at ended
      exact ⟨some exit, ended.symm⟩

/--
`generate` returns the number of bytes that `fwrite` has accepted if and only
if that number fits a `size_t` and the ending gets all of its values or none.
-/
theorem generate_returned_iff
    {config : Cnf}
    {aes : Aes}
    {passes : Nat}
    {generated : Generated Aes}
    (ended :
      generate env encBuffer config aes passes = some generated) :
    generated.returned = (outputCells generated.trace).length ↔
      (outputCells generated.trace).length < sizeModulus ∧
        EndingAllOrNothing env
          (generateChunk env encBuffer config aes passes).state := by
  obtain ⟨exit, result⟩ := generate_ended ended
  obtain ⟨words, output, total⟩ :=
    generateChunk_tallied env encBuffer config aes passes
  generalize
    (generateChunk env encBuffer config aes passes).state = final at *
  have rounds : final.writtenTotal * 8 % sizeModulus =
      outputLength final.trace % sizeModulus := by
    rw [total, output, Nat.mod_mul_mod, Nat.mul_comm]
  rw [endingAllOrNothing_iff, result]
  change
    (final.writtenTotal * 8 % sizeModulus +
        (generateEnding env encBuffer final).returned) % sizeModulus =
      outputLength (generateEnding env encBuffer final).trace ↔
        outputLength (generateEnding env encBuffer final).trace <
          sizeModulus ∧ _
  rw [rounds, Nat.mod_add_mod]
  rcases generateEnding_cases env encBuffer final with
    ⟨whole, written, _⟩ | ⟨short, unwritten, returned⟩
  · rw [← written]
    simp only [whole, or_true, and_true]
    exact Nat.mod_eq_iff_lt (by decide)
  · have bounded :
        final.endingGenerated env ≤
          final.config.endingBytes % uintModulus :=
      endingGenerated_le final
    have small : final.config.endingBytes % uintModulus < uintModulus :=
      Nat.mod_lt _ (by decide)
    rw [unwritten, returned]
    simp only [short, or_false]
    unfold sizeModulus uintModulus at *
    omega

/-- The output of a loop whose counter can reach its bound. -/
structure ChunkState.Limited
    (config : Cnf)
    (completed : Nat)
    (state : ChunkState Aes) : Prop where
  within : completed ≤ config.chunkCount + config.aesThread
  n : state.n = completed
  started : state.firstRun = false → 1 ≤ completed
  output :
    outputLength state.trace ≤
      config.roundBytes * (completed - config.aesThread)

/-- A buffer is no larger than a round of all threads. -/
theorem ChunkState.Setup.bufSize_round
    {config : Cnf}
    {state : ChunkState Aes}
    (setup : state.Setup config) :
    8 * state.bufSize ≤ config.roundBytes := by
  have fewer :=
    Nat.mul_le_mul_left config.chunkSize setup.threadsBounded
  rw [setup.arrays.size, setup.request.chunkSize]
  exact Nat.mul_le_mul_left 8 fewer

/-- What a pass writes is within the round that it completes. -/
theorem ChunkState.Limited.write
    {config : Cnf}
    {completed : Nat}
    {state base : ChunkState Aes}
    (setup : state.Setup config)
    (limited : state.Limited config completed)
    (finishing : Finishing env encBuffer state base)
    (writes : base.skipsWrite = false) :
    outputLength base.trace +
        8 * env.accepts base.writes base.bufSize ≤
      config.roundBytes * (completed + 1 - config.aesThread) := by
  have accepted := env.accepts_le base.writes base.bufSize
  have round := setup.bufSize_round
  have output :
      outputLength base.trace = outputLength state.trace := by
    rw [finishing.trace]
    exact congrArg List.length (parallelFor_outputCells setup.arrays)
  have counted :
      completed + 1 - config.aesThread =
        completed - config.aesThread + 1 := by
    rw [finishing.skipsWrite, ChunkState.skipsWrite,
      setup.request.aesFlag] at writes
    have started := limited.started
    unfold Cnf.aesThread
    cases flag : config.aesFlag with
    | false =>
        simp
    | true =>
        simp only [flag, Bool.true_and] at writes
        have one := started writes
        simp only [if_true]
        omega
  have before := limited.output
  rw [counted, Nat.mul_succ, output, finishing.sameSetup.bufSize]
  rw [finishing.sameSetup.bufSize] at accepted
  omega

/-- A pass that asks for another one keeps the output within its rounds. -/
theorem chunkPass_limited
    {config : Cnf}
    {completed : Nat}
    {state next : ChunkState Aes}
    (split : config.Split)
    (finite : 0 < config.bytes)
    (countable :
      config.chunkCount + config.aesThread < uintModulus)
    (setup : state.Setup config)
    (guarded : state.guard = true)
    (limited : state.Limited config completed)
    (pass : chunkPass env encBuffer state = .again next) :
    ∃ counted, next.Limited config counted := by
  have below := (setup.guard_iff finite split.passes_lt).mp guarded
  rw [limited.n] at below
  cases chunkPass_again pass with
  | rerun underflows threads result =>
      refine ⟨completed, limited.within, ?_, ?_, ?_⟩
      · rw [result]
        exact (increment_decrement setup.nBounded).trans limited.n
      · rw [result]
        exact limited.started
      · rw [result]
        exact
          Nat.le_trans
            (Nat.le_of_eq
              (congrArg List.length
                (parallelFor_outputCells setup.arrays)))
            limited.output
  | finish base finishing writes result =>
      refine ⟨completed + 1, below, ?_, ?_, ?_⟩
      · rw [result, finished_n, finishing.sameSetup.n, limited.n,
          ChunkState.increment]
        exact Nat.mod_eq_of_lt (by omega)
      · intro _
        exact Nat.succ_pos completed
      · rw [result, finished_accepted]
        cases skips : base.skipsWrite with
        | false =>
            simpa using limited.write setup finishing skips
        | true =>
            rw [if_pos rfl, finishing.trace]
            refine
              Nat.le_trans
                (Nat.le_of_eq
                  (congrArg List.length
                    (parallelFor_outputCells setup.arrays)))
                (Nat.le_trans limited.output
                  (Nat.mul_le_mul_left _ (by omega)))

/-- A pass that breaks out leaves the output within all rounds. -/
theorem chunkPass_leave_limited
    {config : Cnf}
    {completed : Nat}
    {state final : ChunkState Aes}
    {exit : ChunkExit}
    (split : config.Split)
    (finite : 0 < config.bytes)
    (setup : state.Setup config)
    (guarded : state.guard = true)
    (limited : state.Limited config completed)
    (pass : chunkPass env encBuffer state = .leave exit final) :
    outputLength final.trace ≤ config.roundBytes * config.chunkCount ∧
      final.config.endingBytes = config.endingBytes := by
  have below := (setup.guard_iff finite split.passes_lt).mp guarded
  rw [limited.n] at below
  have rounds :
      ∀ count,
        count ≤ config.chunkCount →
        config.roundBytes * count ≤
          config.roundBytes * config.chunkCount :=
    fun _ fewer => Nat.mul_le_mul_left _ fewer
  cases chunkPass_leave pass with
  | hardwareProblem underflows oneThread short =>
      refine ⟨?_, setup.request.endingBytes⟩
      refine
        Nat.le_trans
          (Nat.le_of_eq
            (congrArg List.length
              (parallelFor_outputCells setup.arrays)))
          (Nat.le_trans limited.output (rounds _ (by omega)))
  | shortWrite base finishing writes short =>
      have written := limited.write setup finishing writes
      have atMost :=
        rounds (completed + 1 - config.aesThread) (by omega)
      refine ⟨?_, ?_⟩
      · rw [afterWrite_outputLength]
        omega
      · change base.prepared.config.endingBytes = config.endingBytes
        rw [prepared_config, finishing.sameSetup.request.endingBytes,
          setup.request.endingBytes]

/-- Wherever the chunk loop ends up, it has written its rounds at most. -/
theorem generateChunk_output_le
    {config : Cnf}
    (split : config.Split)
    (finite : 0 < config.bytes)
    (countable :
      config.chunkCount + config.aesThread < uintModulus)
    (env : Environment)
    (encBuffer : EncBuffer Aes)
    (aes : Aes)
    (passes : Nat) :
    outputLength
        (generateChunk env encBuffer config aes passes).state.trace ≤
        config.roundBytes * config.chunkCount ∧
      (generateChunk env encBuffer config aes
          passes).state.config.endingBytes =
        config.endingBytes := by
  refine Loop.run_outcome
    (fun (state : ChunkState Aes) =>
      state.Setup config ∧
        ∃ completed, state.Limited config completed)
    (fun (state : ChunkState Aes) =>
      outputLength state.trace ≤ config.roundBytes * config.chunkCount ∧
        state.config.endingBytes = config.endingBytes)
    passes
    ⟨chunkStart_setup config aes, 0, Nat.zero_le _, rfl, nofun,
      Nat.zero_le _⟩
    ?_ ?_ ?_
  · rintro earlier before after _ _ guarded pass
      ⟨setup, completed, limited⟩
    exact
      ⟨chunkPass_setup setup pass,
        chunkPass_limited split finite countable setup guarded limited
          pass⟩
  · rintro earlier before final exit _ _ guarded pass
      ⟨setup, completed, limited⟩
    exact
      chunkPass_leave_limited split finite setup guarded limited pass
  · rintro state ⟨setup, completed, limited⟩
    have within := limited.within
    exact
      ⟨Nat.le_trans limited.output
          (Nat.mul_le_mul_left _ (by omega)),
        setup.request.endingBytes⟩

/--
As long as the loop counter can reach its bound, no more than the requested
amount is written, so that the first condition of `generate_returned_iff`
holds of itself.
-/
theorem generate_output_le
    {config : Cnf}
    (split : config.Split)
    (finite : 0 < config.bytes)
    (countable :
      config.chunkCount + config.aesThread < uintModulus)
    {aes : Aes}
    {passes : Nat}
    {generated : Generated Aes}
    (ended :
      generate env encBuffer config aes passes = some generated) :
    (outputCells generated.trace).length ≤ config.bytes := by
  obtain ⟨exit, result⟩ := generate_ended ended
  obtain ⟨rounds, sameEnding⟩ :=
    generateChunk_output_le split finite countable env encBuffer aes
      passes
  have exactly := split.exactly finite
  rw [result]
  generalize
    (generateChunk env encBuffer config aes passes).state = final at *
  change
    outputLength (generateEnding env encBuffer final).trace ≤
      config.bytes
  rcases generateEnding_cases env encBuffer final with
    ⟨whole, written, returned⟩ | ⟨short, unwritten, returned⟩
  · omega
  · rw [unwritten]
    omega

end Returned

/-- Every call of `fwrite` accepts one item less than it is given. -/
def Environment.curtailed (device : Device) : Environment :=
  { Environment.inOrder device with
    accepts := fun _ items => items - 1
    accepts_le := fun _ items => Nat.sub_le items 1 }

/--
Thirty-seven bytes with two threads: three of the four words and four of the
five bytes of the ending are accepted and returned.
-/
theorem generate_returned_iff_counting :
    ∃ generated,
      generate (.curtailed .counting) plainCopy
          (computeChunkSize { defaultConfigSetting with bytes := 37 })
          () 4 =
        some generated ∧
      generated.returned = 28 ∧
      (generated.returned = (outputCells generated.trace).length ↔
        (outputCells generated.trace).length < sizeModulus ∧
          EndingAllOrNothing (.curtailed .counting)
            (generateChunk (.curtailed .counting) plainCopy
              (computeChunkSize
                { defaultConfigSetting with bytes := 37 })
              () 4).state) := by
  have exits :
      (generate (.curtailed .counting) plainCopy
        (computeChunkSize { defaultConfigSetting with bytes := 37 })
        () 4).map Generated.returned =
        some 28 := by
    decide +kernel
  obtain ⟨generated, ended, returned⟩ := Option.map_eq_some_iff.mp exits
  exact ⟨generated, ended, returned, generate_returned_iff ended⟩

/--
Twelve bytes on a device whose first ten steps fail: the ending gets a value
for four of its bytes only, returns 4, and nothing is written.
-/
theorem generate_returns_unwritten :
    (parseArgs LibC.decimal false [.amount "12"]
      defaultConfigSetting).1 = .success ∧
    (parseArgs LibC.decimal false [.amount "12"]
      defaultConfigSetting).2.bytes = 12 ∧
    (generate (.inOrder (.lateBy 10)) plainCopy
      (parseArgs LibC.decimal false [.amount "12"]
        defaultConfigSetting).2 () 4).map
      (fun generated =>
        (generated.returned, (outputCells generated.trace).length)) =
      some (4, 0) := by
  refine ⟨by decide, by decide, ?_⟩
  decide +kernel

end RdRand
