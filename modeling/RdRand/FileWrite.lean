import RdRand.Serving

namespace RdRand

/-!
# Writing random values to a file

`rdrand_fwrite` acquires one value after another into `tmprand` and writes its
bytes.  It would stop where an acquisition returns 0, but a failed one returns
`RDRAND_FAILURE`: it goes on, and writes what `tmprand` has held before.
-/

/-- The variables of `rdrand_fwrite` and what it has appended to the file. -/
structure FileWrite where
  generated : Nat
  appended : List Cell
  tmprand : List Cell
  position : Nat
  deriving Repr, DecidableEq

/-- The bytes of a 64-bit variable. -/
def wordCells (value : Word) (origin : Origin) : List Cell :=
  (wordBytes value).map fun byte => { value := byte, origin := origin }

/-- The numbers of bytes that `rdrand_fwrite` writes of its values. -/
def fileSizes (count : Nat) : List Nat :=
  List.replicate (count / 8) 8 ++
    if count % 8 ≠ 0 then [count % 8] else []

/-- `fwrite` of so many bytes of `tmprand`, after an acquisition. -/
def FileWrite.fwrite
    (state : FileWrite)
    (tmprand : List Cell)
    (position size : Nat) : FileWrite where
  generated := state.generated + size
  appended := state.appended ++ tmprand.take size
  tmprand := tmprand
  position := position

/-- The loop of `rdrand_fwrite`, over the bytes to write of each value. -/
def fwriteValues
    (device : Device)
    (retryLimit : Int) : List Nat → FileWrite → FileWrite
  | [], state => state
  | size :: rest, state =>
      let acquired :=
        rdrandGetUint64Retry device retryLimit state.position
      let tmprand :=
        match acquired.value with
        | some value => wordCells value (.step (acquired.position - 1))
        | none => state.tmprand
      -- `if(!rdrand_get_uint64_retry(&tmprand, retry_limit))`
      if acquired.rc = 0 then
        { generated := state.generated
          appended := state.appended
          tmprand := tmprand
          position := acquired.position }
      else
        fwriteValues device retryLimit rest
          (state.fwrite tmprand acquired.position size)

/-- `rdrand_fwrite`; `tmprand` begins with what the stack holds. -/
def rdrandFwrite
    (device : Device)
    (stack : Word)
    (count : Nat)
    (retryLimit : Int)
    (position : Nat) : FileWrite :=
  fwriteValues device retryLimit (fileSizes count)
    { generated := 0
      appended := []
      tmprand := wordCells stack .stack
      position := position }

/-- The retries for none of the pieces are exhausted. -/
def AllServed
    (acquire : Nat → Acquisition) :
    List Nat → Nat → Prop
  | [], _ => True
  | _ :: rest, position =>
      (acquire position).value.isSome ∧
        AllServed acquire rest (acquire position).position

/--
What writing to a file should do: it appends bytes of values of successful
steps, each step used once, ends where a service of the values stops, and
returns the number of bytes appended, which is all where none is exhausted.
-/
structure FileLaw
    (device : Device)
    (count : Nat)
    (retryLimit : Int)
    (position : Nat)
    (written : FileWrite) : Prop where
  fromSteps :
    ∃ steps : List Nat,
      steps.Pairwise (· < ·) ∧
        (∀ step ∈ steps, position ≤ step ∧ device.Delivers step) ∧
        steps.length ≤ (fileSizes count).length ∧
        written.appended = piecesFrom device (fileSizes count) steps
  stops :
    written.position =
        (serve (rdrandGetUint64Retry device retryLimit)
          (fileSizes count) 0 position).position ∧
      written.appended.length =
        (serve (rdrandGetUint64Retry device retryLimit)
          (fileSizes count) 0 position).storedBytes
  amount : written.generated = written.appended.length
  whole :
    written.generated = count ↔
      AllServed (rdrandGetUint64Retry device retryLimit)
        (fileSizes count) position

section Sizes

theorem fileSizes_small (count : Nat) :
    ∀ size ∈ fileSizes count, size ≤ 8 := by
  intro size member
  rcases List.mem_append.mp member with inWords | inRest
  · exact Nat.le_of_eq (List.eq_of_mem_replicate inWords)
  · split at inRest
    · rw [List.mem_singleton.mp inRest]
      exact Nat.le_of_lt (Nat.mod_lt count (by decide))
    · cases inRest

@[simp] theorem fileSizes_sum (count : Nat) :
    (fileSizes count).sum = count := by
  rw [fileSizes, List.sum_append, List.sum_replicate_nat]
  split
  · simp only [List.sum_cons, List.sum_nil]
    omega
  · simp only [List.sum_nil]
    omega

end Sizes

section Loop

variable
  {device : Device}
  {retryLimit : Int}
  {sizes : List Nat}

/-- Where no value is exhausted, a service serves all pieces. -/
theorem AllServed.serve_generated
    {acquire : Nat → Acquisition}
    {position : Nat}
    (served : AllServed acquire sizes position)
    (dest : Nat) :
    (serve acquire sizes dest position).generated = sizes.length := by
  induction sizes generalizing dest position with
  | nil =>
      rfl
  | cons size rest inductionHypothesis =>
      obtain ⟨first, others⟩ := served
      obtain ⟨value, saved⟩ := Option.isSome_iff_exists.mp first
      rw [serve_served saved, inductionHypothesis others]
      rfl

/-- The code of an acquisition is never the one that the loop tests for. -/
theorem rdrandGetUint64Retry_rc_ne_zero (position : Nat) :
    (rdrandGetUint64Retry device retryLimit position).rc ≠ 0 := by
  unfold rdrandGetUint64Retry
  simp only
  split
  · exact Int.one_ne_zero
  · exact Int.neg_ne_zero.mpr Int.one_ne_zero

/-- Whatever the device does, the loop counts all bytes. -/
theorem fwriteValues_generated (state : FileWrite) :
    (fwriteValues device retryLimit sizes state).generated =
      state.generated + sizes.sum := by
  induction sizes generalizing state with
  | nil =>
      rfl
  | cons size rest inductionHypothesis =>
      unfold fwriteValues
      simp only [rdrandGetUint64Retry_rc_ne_zero, if_false,
        inductionHypothesis, FileWrite.fwrite, List.sum_cons,
        Nat.add_assoc]

/-- A value that is saved is written, and the loop goes on. -/
theorem fwriteValues_saved
    {state : FileWrite}
    {value : Word}
    (saved :
      (rdrandGetUint64Retry device retryLimit state.position).value =
        some value)
    (size : Nat) :
    fwriteValues device retryLimit (size :: sizes) state =
      fwriteValues device retryLimit sizes
        (state.fwrite
          (wordCells value
            (.step
              ((rdrandGetUint64Retry device retryLimit
                state.position).position - 1)))
          (rdrandGetUint64Retry device retryLimit
            state.position).position
          size) := by
  rw [fwriteValues]
  simp only [rdrandGetUint64Retry_rc_ne_zero, if_false, saved]

/-- While no value is exhausted the loop appends what a service stores. -/
theorem fwriteValues_served
    (state : FileWrite)
    (served :
      AllServed (rdrandGetUint64Retry device retryLimit) sizes
        state.position)
    (dest : Nat) :
    (fwriteValues device retryLimit sizes state).appended =
        state.appended ++
          CellMemory.contents
            (serve (rdrandGetUint64Retry device retryLimit) sizes dest
              state.position).runs ∧
      (fwriteValues device retryLimit sizes state).position =
        (serve (rdrandGetUint64Retry device retryLimit) sizes dest
          state.position).position := by
  induction sizes generalizing state dest with
  | nil =>
      simp [fwriteValues, Fill.nothing, Fill.runs]
  | cons size rest inductionHypothesis =>
      obtain ⟨first, others⟩ := served
      obtain ⟨value, saved⟩ := Option.isSome_iff_exists.mp first
      rw [fwriteValues_saved saved, serve_served saved]
      obtain ⟨appended, position⟩ :=
        inductionHypothesis
          (state.fwrite
            (wordCells value
              (.step
                ((rdrandGetUint64Retry device retryLimit
                  state.position).position - 1)))
            (rdrandGetUint64Retry device retryLimit
              state.position).position
            size)
          others (dest + size)
      refine ⟨appended.trans ?_, position⟩
      simp only [FileWrite.fwrite, Fill.runs, List.map_cons,
        CellMemory.contents_cons, Store.cells, wordCells, List.map_take,
        List.append_assoc]

/-- Whatever the device does, `rdrand_fwrite` returns its count. -/
theorem rdrandFwrite_generated
    (device : Device)
    (stack : Word)
    (count : Nat)
    (retryLimit : Int)
    (position : Nat) :
    (rdrandFwrite device stack count retryLimit position).generated =
      count := by
  rw [rdrandFwrite, fwriteValues_generated, fileSizes_sum]
  exact Nat.zero_add count

/-- While no value is exhausted the service stores all bytes. -/
theorem AllServed.storedBytes
    {count position : Nat}
    (served :
      AllServed (rdrandGetUint64Retry device retryLimit)
        (fileSizes count) position) :
    (serve (rdrandGetUint64Retry device retryLimit) (fileSizes count) 0
      position).storedBytes = count := by
  rw [serve_storedBytes (fileSizes_small count),
    served.serve_generated, List.take_length, fileSizes_sum]

end Loop

/--
`rdrand_fwrite` does what it should exactly where the retries for none of its
values are exhausted.
-/
theorem rdrandFwrite_law_iff
    (device : Device)
    (stack : Word)
    (count : Nat)
    (retryLimit : Int)
    (position : Nat) :
    FileLaw device count retryLimit position
        (rdrandFwrite device stack count retryLimit position) ↔
      AllServed (rdrandGetUint64Retry device retryLimit)
        (fileSizes count) position := by
  have generated :=
    rdrandFwrite_generated device stack count retryLimit position
  constructor
  · intro law
    exact law.whole.mp generated
  · intro served
    obtain ⟨appended, ends⟩ :=
      fwriteValues_served
        (FileWrite.mk 0 [] (wordCells stack .stack) position) served 0
    rw [List.nil_append] at appended
    change
      (rdrandFwrite device stack count retryLimit position).appended = _
        at appended
    have length :=
      (congrArg List.length appended).trans
        (Fill.contents_runs_length _)
    refine
      { fromSteps := ?_
        stops := ⟨ends, length⟩
        amount := ?_
        whole := ⟨fun _ => served, fun _ => generated⟩ }
    · rw [appended]
      exact
        serve_steps (rdrandGetUint64Retry_sound device retryLimit)
          (fileSizes_small count) 0 position
    · rw [generated, length, served.storedBytes]

/--
On a device whose steps all fail the eight bytes of the uninitialised variable
are written and counted.
-/
theorem rdrandFwrite_stale :
    (rdrandFwrite .broken 0 8 10 0).generated = 8 ∧
      (rdrandFwrite .broken 0 8 10 0).appended =
        wordCells 0 .stack ∧
      ¬ FileLaw .broken 8 10 0 (rdrandFwrite .broken 0 8 10 0) := by
  have eight : (rdrandFwrite .broken 0 8 10 0).generated = 8 := by
    decide
  have exhausted :
      ¬ AllServed (rdrandGetUint64Retry .broken 10) (fileSizes 8) 0 := by
    rintro ⟨first, _⟩
    revert first
    decide
  exact ⟨eight, by decide, fun law => exhausted (law.whole.mp eight)⟩

end RdRand
