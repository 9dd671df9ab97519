import RdRand.NarrowArrays

namespace RdRand

/-!
# The law of the array functions

An array function puts the values of successive successful steps into its
array, from the front on, and leaves the rest of memory alone.  It comes short
only where the tries for one value are exhausted, and stops there.
-/

/-- The bytes that whole words of so many elements leave to the head. -/
def headBytes (unit count : Nat) : Nat :=
  unit * (count % (8 / unit))

/-- The words that an array of so many elements of `unit` bytes holds. -/
def arrayWords (unit count : Nat) : Nat :=
  count / (8 / unit)

/-- The law of a function that fills an array of elements of `unit` bytes. -/
structure ArrayLaw
    (device : Device)
    (unit dest count : Nat)
    (retryLimit : Int)
    (position : Nat)
    (fill : Fill) : Prop where
  bounded : fill.generated ≤ count
  amount :
    (piecesFrom device
      (arrayPieces (headBytes unit count) (arrayWords unit count))
      (device.deliveries position fill.position)).length =
        unit * fill.generated
  filled :
    ∀ memory,
      fill.applyTo memory =
        CellMemory.store memory dest
          (piecesFrom device
            (arrayPieces (headBytes unit count) (arrayWords unit count))
            (device.deliveries position fill.position))
  used :
    (device.deliveries position fill.position).length ≤
      (arrayPieces (headBytes unit count)
        (arrayWords unit count)).length
  short :
    fill.generated ≠ count ↔
      ∃ failedFrom,
        position ≤ failedFrom ∧
          failedFrom + maxTries retryLimit ≤ fill.position ∧
          device.FailedRun failedFrom (maxTries retryLimit)
  stops :
    ∀ failedFrom,
      position ≤ failedFrom →
      failedFrom + maxTries retryLimit ≤ fill.position →
      device.FailedRun failedFrom (maxTries retryLimit) →
      failedFrom + maxTries retryLimit = fill.position

theorem maxTries_positive (retryLimit : Int) :
    0 < maxTries retryLimit := by
  unfold maxTries
  omega

section Units

variable {unit : Nat} (whole : unit * (8 / unit) = 8)

include whole

/-- The head holds less than a word. -/
theorem headBytes_small (count : Nat) :
    headBytes unit count ≤ 8 :=
  calc
    headBytes unit count ≤ unit * (8 / unit) :=
      Nat.mul_le_mul_left unit
        (Nat.le_of_lt (Nat.mod_lt count (factors_positive whole).2))
    _ = 8 := whole

/-- The head and the words of an array make up the array. -/
theorem arrayPieces_total (count : Nat) :
    (arrayPieces (headBytes unit count) (arrayWords unit count)).sum =
      unit * count :=
  calc
    (arrayPieces (headBytes unit count) (arrayWords unit count)).sum =
        headBytes unit count + 8 * arrayWords unit count :=
      arrayPieces_sum _ _
    _ =
        unit * (count % (8 / unit)) +
          unit * (8 / unit) * (count / (8 / unit)) := by
      rw [headBytes, arrayWords, whole]
    _ = unit * count := by
      rw [Nat.mul_assoc, ← Nat.mul_add, Nat.mod_add_div]

end Units

theorem take_sum_add_drop_sum (pieces : List Nat) (amount : Nat) :
    (pieces.take amount).sum + (pieces.drop amount).sum =
      pieces.sum := by
  rw [← List.sum_append, List.take_append_drop]

/-- A sum of positive numbers is whole only with all of them. -/
theorem take_sum_eq_iff
    {pieces : List Nat}
    (positive : ∀ piece ∈ pieces, 0 < piece)
    {amount : Nat}
    (le : amount ≤ pieces.length) :
    (pieces.take amount).sum = pieces.sum ↔ amount = pieces.length := by
  constructor
  · intro whole
    by_contra fewer
    have someRest : pieces.drop amount ≠ [] := by
      intro none
      have length := List.drop_eq_nil_iff.mp none
      omega
    have parts := take_sum_add_drop_sum pieces amount
    obtain ⟨piece, later, shape⟩ := List.exists_cons_of_ne_nil someRest
    have member : piece ∈ pieces := by
      apply List.mem_of_mem_drop
      rw [shape]
      exact List.mem_cons_self
    have more := positive piece member
    rw [shape, List.sum_cons] at parts
    omega
  · intro all
    rw [all, List.take_length]

section Serves

variable
  {acquire : Nat → Acquisition}
  {pieces : List Nat}
  {unit dest position : Nat}
  {fill : Fill}

theorem Fill.Serves.runs
    (serves : fill.Serves acquire pieces unit dest position) :
    fill.runs = (serve acquire pieces dest position).runs := by
  simp only [Fill.runs, serves.stores]

theorem Fill.Serves.storedBytes_eq
    (serves : fill.Serves acquire pieces unit dest position)
    (small : ∀ piece ∈ pieces, piece ≤ 8) :
    fill.storedBytes =
      (pieces.take
        (serve acquire pieces dest position).generated).sum := by
  rw [← serve_storedBytes small]
  simp only [Fill.storedBytes, serves.stores]

/-- A fill counts its elements up to the number of bytes of the pieces. -/
theorem Fill.Serves.generated_le
    (serves : fill.Serves acquire pieces unit dest position)
    (small : ∀ piece ∈ pieces, piece ≤ 8)
    (unitPositive : 0 < unit)
    {count : Nat}
    (total : pieces.sum = unit * count) :
    fill.generated ≤ count := by
  have parts :=
    take_sum_add_drop_sum pieces
      (serve acquire pieces dest position).generated
  apply Nat.le_of_mul_le_mul_left _ unitPositive
  rw [serves.generated, serves.storedBytes_eq small]
  omega

/-- A fill counts all its elements where all the pieces were served. -/
theorem Fill.Serves.whole_iff
    (serves : fill.Serves acquire pieces unit dest position)
    (small : ∀ piece ∈ pieces, piece ≤ 8)
    (positive : ∀ piece ∈ pieces, 0 < piece)
    (unitPositive : 0 < unit)
    {count : Nat}
    (total : pieces.sum = unit * count) :
    fill.generated = count ↔
      (serve acquire pieces dest position).generated =
        pieces.length := by
  rw [← take_sum_eq_iff positive (serve_generated_le pieces dest position),
    ← serves.storedBytes_eq small, ← serves.generated, total]
  exact (Nat.mul_right_inj (Nat.ne_of_gt unitPositive)).symm

/-- What a fill puts into memory is what the service stores, in one run. -/
theorem Fill.Serves.applyTo
    (serves : fill.Serves acquire pieces unit dest position)
    (small : ∀ piece ∈ pieces, piece ≤ 8)
    (memory : Nat → Cell) :
    fill.applyTo memory =
      CellMemory.store memory dest (CellMemory.contents fill.runs) := by
  rw [serves.runs, ← serve_applyTo small, Fill.applyTo_eq_storeAll,
    Fill.applyTo_eq_storeAll, serves.runs]

end Serves

section Law

variable
  {device : Device}
  {unit dest count position : Nat}
  {retryLimit : Int}
  {fill : Fill}

/-- On documented steps the pieces get the values of all deliveries. -/
theorem Fill.Serves.contents
    (documented : device.Documented)
    {pieces : List Nat}
    (serves :
      fill.Serves
        (acquireInline device (effectiveLimit retryLimit))
        pieces unit dest position)
    (small : ∀ piece ∈ pieces, piece ≤ 8) :
    CellMemory.contents fill.runs =
      piecesFrom device pieces
        (device.deliveries position fill.position) := by
  have acquires :=
    acquireInline_sound device (effectiveLimit retryLimit)
  rw [serves.runs, serve_contents acquires small,
    serve_deliveries (acquireInline_law documented retryLimit) acquires,
    serves.position]

/-- On documented steps the deliveries are as many as the pieces served. -/
theorem Fill.Serves.deliveries_length
    (documented : device.Documented)
    {pieces : List Nat}
    (serves :
      fill.Serves
        (acquireInline device (effectiveLimit retryLimit))
        pieces unit dest position)
    (small : ∀ piece ∈ pieces, piece ≤ 8) :
    (device.deliveries position fill.position).length ≤
      pieces.length := by
  have acquires :=
    acquireInline_sound device (effectiveLimit retryLimit)
  rw [serves.position,
    ← serve_deliveries (acquireInline_law documented retryLimit)
      acquires,
    List.length_map]
  exact serve_stores_length_le small dest position

/-- What serves the pieces of an array obeys the law of the array functions. -/
theorem Fill.Serves.arrayLaw
    (documented : device.Documented)
    (whole : unit * (8 / unit) = 8)
    (serves :
      fill.Serves
        (acquireInline device (effectiveLimit retryLimit))
        (arrayPieces (headBytes unit count) (arrayWords unit count))
        unit dest position) :
    ArrayLaw device unit dest count retryLimit position fill := by
  have unitPositive := (factors_positive whole).1
  have small :=
    arrayPieces_small (headBytes_small whole count)
      (arrayWords unit count)
  have positive :=
    arrayPieces_positive (headBytes unit count) (arrayWords unit count)
  have total := arrayPieces_total whole count
  have lawful := acquireInline_law documented retryLimit
  have contents := serves.contents documented small
  have all := serves.whole_iff small positive unitPositive total
  have ends := serves.position
  refine
    { bounded := serves.generated_le small unitPositive total
      amount := ?_
      filled := ?_
      used := serves.deliveries_length documented small
      short := ?_
      stops := ?_ }
  · rw [← contents, Fill.contents_runs_length, serves.generated]
  · intro memory
    rw [← contents]
    exact serves.applyTo small memory
  · rw [ends]
    constructor
    · intro incomplete
      have fewer :=
        Nat.lt_of_le_of_ne (serve_generated_le _ dest position)
          (mt all.mpr incomplete)
      obtain ⟨failedFrom, notBefore, atEnd, run⟩ :=
        serve_incomplete lawful
          (acquireInline_sound device (effectiveLimit retryLimit)) fewer
      exact ⟨failedFrom, notBefore, Nat.le_of_eq atEnd, run⟩
    · rintro ⟨failedFrom, notBefore, before, run⟩ complete
      have fewer :=
        (serve_stops lawful (maxTries_positive retryLimit) _ notBefore
          before run).2
      exact Nat.ne_of_lt fewer (all.mp complete)
  · intro failedFrom notBefore before run
    rw [ends] at before ⊢
    exact
      (serve_stops lawful (maxTries_positive retryLimit) _ notBefore
        before run).1

end Law

/--
The functions that fill arrays of 8, 32 and 64-bit values obey the law of the
array functions on documented steps.
-/
theorem arrayFunctions_law
    {device : Device}
    (documented : device.Documented)
    {count : Nat}
    (fits : count < uintModulus)
    (retryLimit : Int)
    (dest position : Nat) :
    ArrayLaw device 1 dest count retryLimit position
        (rdrandGetUint8ArrayRetry device dest count retryLimit
          position) ∧
      ArrayLaw device 4 dest count retryLimit position
        (rdrandGetUint32ArrayRetry device dest count retryLimit
          position) ∧
      ArrayLaw device 8 dest count retryLimit position
        (rdrandGetUint64ArrayRetry device dest count retryLimit
          position) := by
  refine ⟨?_, ?_, ?_⟩
  · have bytes : headBytes 1 count = count % 8 := by
      simp [headBytes]
    have words : arrayWords 1 count = count / 8 := by
      simp [arrayWords]
    apply Fill.Serves.arrayLaw documented (by decide)
    rw [bytes, words]
    exact
      rdrandGetUint8ArrayRetry_serves device retryLimit dest position
        fits
  · -- The head is one element, which is all that whole words leave over.
    have bytes :
        headBytes 4 count = if count % 2 > 0 then 4 else 0 := by
      simp only [headBytes]
      split <;> omega
    have words : arrayWords 4 count = count / 2 := by
      simp [arrayWords]
    apply Fill.Serves.arrayLaw documented (by decide)
    rw [bytes, words]
    exact
      narrowArrayRetry_serves device retryLimit dest position
        (show 4 * (8 / 4) = 8 by decide) fits
  · have bytes : headBytes 8 count = 0 := by
      simp [headBytes, Nat.mod_one]
    have words : arrayWords 8 count = count := by
      simp [arrayWords]
    apply Fill.Serves.arrayLaw documented (by decide)
    rw [bytes, words]
    exact
      rdrandGetUint64ArrayRetry_serves device retryLimit dest position
        count

/-- Eleven elements from a device that fails three times at first. -/
theorem arrayFunctions_law_lateBy :
    ArrayLaw (.lateBy 3) 1 0 11 10 0
        (rdrandGetUint8ArrayRetry (.lateBy 3) 0 11 10 0) ∧
      ArrayLaw (.lateBy 3) 4 0 11 10 0
        (rdrandGetUint32ArrayRetry (.lateBy 3) 0 11 10 0) ∧
      ArrayLaw (.lateBy 3) 8 0 11 10 0
        (rdrandGetUint64ArrayRetry (.lateBy 3) 0 11 10 0) :=
  arrayFunctions_law (Device.lateBy_documented 3) (by decide) 10 0 0

end RdRand
