import RdRand.Serving

namespace RdRand

/-!
# Arrays of narrow values

The functions that fill arrays of 8, 16 and 32-bit values get whole words
where they can.  They acquire one value for a head, and then the words.  The
head of `rdrand_get_uint8_array_retry` has all the elements that the words
leave over; the heads of the other two have one element.
-/

/-- `lanes * generated` in `unsigned int`, for a fill that counted words. -/
def Fill.inLanes (lanes : Nat) (fill : Fill) : Fill where
  generated := lanes * fill.generated % uintModulus
  stores := fill.stores
  position := fill.position

/--
The functions that fill an array of elements of so many bytes, several of
which make a word: at most one element by itself, then whole words.
-/
def narrowArrayRetry
    (width : Nat)
    (device : Device)
    (dest count : Nat)
    (retryLimit : Int)
    (position : Nat) : Fill :=
  let lanes := 8 / width
  let count64 := count / lanes
  let countNarrow := count - lanes * count64
  let limit := effectiveLimit retryLimit
  if countNarrow > 0 then
    let (outcome, next) := retryStep device (furtherTries limit) position
    if outcome.rc = rdrandSuccess then
      (Fill.mk 1
        [{ address := dest
           bytes := (wordBytes outcome.value).take width
           origin := next - 1 }]
        next).andThen
          ((rdrandGetUint64ArrayRetry device
            (dest + width) count64 limit next).inLanes lanes)
    else
      { generated := 0, stores := [], position := next }
  else
    (rdrandGetUint64ArrayRetry
      device dest count64 limit position).inLanes lanes

/-- `rdrand_get_uint16_array_retry`. -/
def rdrandGetUint16ArrayRetry :
    Device → Nat → Nat → Int → Nat → Fill :=
  narrowArrayRetry 2

/-- `rdrand_get_uint32_array_retry`. -/
def rdrandGetUint32ArrayRetry :
    Device → Nat → Nat → Int → Nat → Fill :=
  narrowArrayRetry 4

/-- A head, if it is not empty, and so many words. -/
def arrayPieces (head words : Nat) : List Nat :=
  (if head > 0 then [head] else []) ++ List.replicate words 8

/--
A fill of an array stores what a service of some pieces stores, ends with it,
and counts the elements of `unit` bytes it has stored.
-/
structure Fill.Serves
    (acquire : Nat → Acquisition)
    (pieces : List Nat)
    (unit dest position : Nat)
    (fill : Fill) : Prop where
  stores : fill.stores = (serve acquire pieces dest position).stores
  position : fill.position = (serve acquire pieces dest position).position
  generated : unit * fill.generated = fill.storedBytes

/-- The parts of a word of eight bytes are not empty. -/
theorem factors_positive
    {unit lanes : Nat}
    (whole : unit * lanes = 8) :
    0 < unit ∧ 0 < lanes := by
  have positive : 0 < unit * lanes := by
    rw [whole]
    decide
  exact
    ⟨Nat.pos_of_mul_pos_right positive, Nat.pos_of_mul_pos_left positive⟩

section Pieces

theorem arrayPieces_small
    {head : Nat}
    (small : head ≤ 8)
    (words : Nat) :
    ∀ piece ∈ arrayPieces head words, piece ≤ 8 := by
  intro piece member
  rcases List.mem_append.mp member with inHead | inWords
  · split at inHead
    · rwa [List.mem_singleton.mp inHead]
    · cases inHead
  · rw [List.eq_of_mem_replicate inWords]

theorem arrayPieces_positive (head words : Nat) :
    ∀ piece ∈ arrayPieces head words, 0 < piece := by
  intro piece member
  rcases List.mem_append.mp member with inHead | inWords
  · split at inHead
    · next some =>
        rwa [List.mem_singleton.mp inHead]
    · cases inHead
  · rw [List.eq_of_mem_replicate inWords]
    decide

@[simp] theorem arrayPieces_sum (head words : Nat) :
    (arrayPieces head words).sum = head + 8 * words := by
  unfold arrayPieces
  split
  · simp [Nat.mul_comm]
  · next none =>
      have empty : head = 0 := by
        omega
      simp [empty, Nat.mul_comm]

end Pieces

/-- The array loop serves words. -/
theorem fillWords_eq_serve
    {device : Device}
    {acquire : Nat → Acquisition}
    (acquires : ∀ position, (acquire position).Sound device position)
    (count dest position : Nat) :
    fillWords acquire count dest position =
      serve acquire (List.replicate count 8) dest position := by
  induction count generalizing dest position with
  | zero =>
      rfl
  | succ count inductionHypothesis =>
      have codes := (acquires position).codes
      rw [List.replicate_succ]
      unfold fillWords
      cases saved : (acquire position).value with
      | none =>
          rw [saved] at codes
          have failed : ¬ (acquire position).rc = rdrandSuccess := by
            simp [codes]
          rw [serve_short saved]
          simp only [failed, if_false]
      | some value =>
          rw [saved] at codes
          have success : (acquire position).rc = rdrandSuccess := by
            simp [codes]
          have whole : (wordBytes value).take 8 = wordBytes value :=
            List.take_of_length_le (by simp)
          rw [serve_served saved]
          simp only [success, if_true, saved, Option.getD_some, whole,
            inductionHypothesis]

theorem serve_words_storedBytes
    (acquire : Nat → Acquisition)
    (words dest position : Nat) :
    (serve acquire (List.replicate words 8) dest position).storedBytes =
      8 * (serve acquire (List.replicate words 8)
        dest position).generated := by
  have served :
      (serve acquire (List.replicate words 8) dest
        position).generated ≤ words := by
    simpa using
      serve_generated_le (List.replicate words 8) dest position
  rw [serve_storedBytes fun piece member =>
      Nat.le_of_eq (List.eq_of_mem_replicate member),
    List.take_replicate, List.sum_replicate_nat,
    Nat.min_eq_left served, Nat.mul_comm]

section Serves

variable
  (device : Device)
  (retryLimit : Int)
  (dest position : Nat)

/-- What the functions do when there is a head. -/
def headThenWords
    (head units lanes words : Nat)
    (limit : Int) : Fill :=
  let (outcome, next) := retryStep device (furtherTries limit) position
  if outcome.rc = rdrandSuccess then
    (Fill.mk units
      [{ address := dest
         bytes := (wordBytes outcome.value).take head
         origin := next - 1 }]
      next).andThen
        ((rdrandGetUint64ArrayRetry device
          (dest + head) words limit next).inLanes lanes)
  else
    { generated := 0, stores := [], position := next }

/-- Words made of lanes serve the words, where the lanes can be counted. -/
theorem inLanes_serves
    {lanes unit words : Nat}
    (whole : unit * lanes = 8)
    (fits : lanes * words < uintModulus) :
    ((rdrandGetUint64ArrayRetry device dest words
      (effectiveLimit retryLimit) position).inLanes lanes).Serves
        (acquireInline device (effectiveLimit retryLimit))
        (List.replicate words 8) unit dest position := by
  unfold rdrandGetUint64ArrayRetry
  rw [effectiveLimit_effectiveLimit,
    fillWords_eq_serve
      (acquireInline_sound device (effectiveLimit retryLimit))]
  refine ⟨rfl, rfl, ?_⟩
  change
    unit * (lanes * (serve _ _ dest position).generated % uintModulus) =
      (serve _ _ dest position).storedBytes
  have served :
      (serve (acquireInline device (effectiveLimit retryLimit))
        (List.replicate words 8) dest position).generated ≤ words := by
    simpa using
      serve_generated_le (List.replicate words 8) dest position
  rw [serve_words_storedBytes,
    Nat.mod_eq_of_lt
      (Nat.lt_of_le_of_lt (Nat.mul_le_mul_left lanes served) fits),
    ← Nat.mul_assoc, whole]

/-- A head and then words serve the head and the words. -/
theorem headThenWords_serves
    {head units lanes unit words : Nat}
    (whole : unit * lanes = 8)
    (sized : unit * units = head)
    (small : head ≤ 8)
    (fits : lanes * words < uintModulus) :
    (headThenWords device dest position head units lanes words
      (effectiveLimit retryLimit)).Serves
        (acquireInline device (effectiveLimit retryLimit))
        (head :: List.replicate words 8) unit dest position := by
  unfold headThenWords
  simp only
  split
  · next success =>
      have saved :
          (acquireInline device (effectiveLimit retryLimit)
            position).value =
            some (retryStep device
              (furtherTries (effectiveLimit retryLimit))
              position).1.value := by
        simp [acquireInline, success]
      have rest :=
        inLanes_serves device retryLimit (dest + head)
          (retryStep device
            (furtherTries (effectiveLimit retryLimit)) position).2
          whole fits
      refine ⟨?_, ?_, ?_⟩
      · rw [serve_served saved]
        simp only [Fill.andThen, rest.stores]
        rfl
      · rw [serve_served saved]
        exact rest.position
      · simp only [Fill.andThen, Fill.storedBytes, List.map_append,
          List.map_cons, List.map_nil, List.sum_append, List.sum_cons,
          List.sum_nil, Nat.mul_add, sized, rest.generated,
          List.length_take, wordBytes_length, Nat.min_eq_left small,
          Nat.add_zero]
  · next failure =>
      have short :
          (acquireInline device (effectiveLimit retryLimit)
            position).value = none := by
        simp [acquireInline, failure]
      refine ⟨?_, ?_, ?_⟩
      · rw [serve_short short]
      · rw [serve_short short]
        rfl
      · rfl

/-- `rdrand_get_uint8_array_retry` serves a head and words. -/
theorem rdrandGetUint8ArrayRetry_serves
    {count : Nat}
    (fits : count < uintModulus) :
    (rdrandGetUint8ArrayRetry device dest count retryLimit
      position).Serves
        (acquireInline device (effectiveLimit retryLimit))
        (arrayPieces (count % 8) (count / 8)) 1 dest position := by
  have wholeWords : 8 * (count / 8) < uintModulus := by
    omega
  unfold rdrandGetUint8ArrayRetry arrayPieces
  simp only
  split
  · next someHead =>
      exact
        headThenWords_serves device retryLimit dest position
          (by decide) (Nat.one_mul _)
          (Nat.le_of_lt (Nat.mod_lt count (by decide))) wholeWords
  · exact
      inLanes_serves device retryLimit dest position (by decide)
        wholeWords

/-- The arrays of narrower elements serve one element and words. -/
theorem narrowArrayRetry_serves
    {width count : Nat}
    (whole : width * (8 / width) = 8)
    (fits : count < uintModulus) :
    (narrowArrayRetry width device dest count retryLimit
      position).Serves
        (acquireInline device (effectiveLimit retryLimit))
        (arrayPieces
          (if count % (8 / width) > 0 then width else 0)
          (count / (8 / width)))
        width dest position := by
  have wholeWords :
      8 / width * (count / (8 / width)) < uintModulus :=
    Nat.lt_of_le_of_lt (Nat.mul_div_le count (8 / width)) fits
  obtain ⟨positive, lanesPositive⟩ := factors_positive whole
  have small : width ≤ 8 :=
    calc
      width ≤ width * (8 / width) :=
        Nat.le_mul_of_pos_right width lanesPositive
      _ = 8 := whole
  have leftOver :
      count - 8 / width * (count / (8 / width)) =
        count % (8 / width) := by
    rw [Nat.mod_eq_sub_mul_div]
  unfold narrowArrayRetry arrayPieces
  simp only [leftOver]
  split
  · next someHead =>
      exact
        headThenWords_serves device retryLimit dest position whole
          (Nat.mul_one width) small wholeWords
  · exact
      inLanes_serves device retryLimit dest position whole wholeWords

/-- `rdrand_get_uint64_array_retry` serves words. -/
theorem rdrandGetUint64ArrayRetry_serves (count : Nat) :
    (rdrandGetUint64ArrayRetry device dest count retryLimit
      position).Serves
        (acquireInline device (effectiveLimit retryLimit))
        (arrayPieces 0 count) 8 dest position := by
  unfold rdrandGetUint64ArrayRetry
  rw [fillWords_eq_serve
    (acquireInline_sound device (effectiveLimit retryLimit))]
  exact ⟨rfl, rfl, (serve_words_storedBytes _ count dest position).symm⟩

end Serves

/-- A plain loop of 16-bit acquisitions. -/
def plainUint16Loop
    (device : Device)
    (dest count : Nat)
    (retryLimit : Int)
    (position : Nat) : Fill :=
  serve (acquireInline device (effectiveLimit retryLimit))
    (List.replicate count 2) dest position

/--
`rdrand_get_uint16_array_retry` returns its count, has filled its array, and
so produced as many elements as a plain loop.
-/
structure FillsLikeLoop
    (device : Device)
    (dest count : Nat)
    (retryLimit : Int)
    (position : Nat) : Prop where
  returned :
    (rdrandGetUint16ArrayRetry device dest count retryLimit
      position).generated = count
  filled :
    ∀ address,
      dest ≤ address →
      address < dest + 2 * count →
      (rdrandGetUint16ArrayRetry device dest count retryLimit
        position).Covers address
  likeLoop :
    (rdrandGetUint16ArrayRetry device dest count retryLimit
      position).generated =
        (plainUint16Loop device dest count retryLimit
          position).generated

section Uint16

variable {device : Device}

theorem acquireInline_saves
    (neverFails : device.NeverFails)
    (retryLimit : Int)
    (position : Nat) :
    ∃ value, (acquireInline device retryLimit position).value =
      some value := by
  rw [acquireInline_of_delivers (neverFails position)]
  exact ⟨_, rfl⟩

/-- A fill that serves pieces covers as much of its target as it stores. -/
theorem Fill.Serves.covers_iff
    {acquire : Nat → Acquisition}
    {pieces : List Nat}
    {unit dest position : Nat}
    {fill : Fill}
    (serves : fill.Serves acquire pieces unit dest position)
    (small : ∀ piece ∈ pieces, piece ≤ 8)
    (address : Nat) :
    fill.Covers address ↔
      dest ≤ address ∧ address < dest + fill.storedBytes := by
  have covers :
      (serve acquire pieces dest position).Covers address ↔ _ :=
    serve_covers_iff small
  simp only [Fill.Covers, Fill.storedBytes, ← serves.stores] at covers
  exact covers

/-- Without failures a fill that serves pieces stores all of them. -/
theorem Fill.Serves.storedBytes
    {acquire : Nat → Acquisition}
    {head words unit dest position : Nat}
    {fill : Fill}
    (serves :
      fill.Serves acquire (arrayPieces head words) unit dest position)
    (small : head ≤ 8)
    (saves : ∀ current, ∃ value, (acquire current).value = some value) :
    fill.storedBytes = head + 8 * words := by
  have stored :
      fill.storedBytes =
        (serve acquire (arrayPieces head words) dest
          position).storedBytes := by
    simp only [Fill.storedBytes, serves.stores]
  rw [stored, serve_storedBytes (arrayPieces_small small words),
    serve_complete saves, List.take_length, arrayPieces_sum]

/--
Without failures `rdrand_get_uint16_array_retry` gets its whole array exactly
where its words leave over one element at most.
-/
theorem rdrandGetUint16ArrayRetry_whole_iff
    (neverFails : device.NeverFails)
    (dest : Nat)
    {count : Nat}
    (fits : count < uintModulus)
    (retryLimit : Int)
    (position : Nat) :
    FillsLikeLoop device dest count retryLimit position ↔
      count % 4 ≤ 1 := by
  have serves :
      (rdrandGetUint16ArrayRetry device dest count retryLimit
        position).Serves
          (acquireInline device (effectiveLimit retryLimit))
          (arrayPieces (if count % 4 > 0 then 2 else 0) (count / 4))
          2 dest position :=
    narrowArrayRetry_serves device retryLimit dest position
      (show 2 * (8 / 2) = 8 by decide) fits
  have saves :=
    acquireInline_saves neverFails (effectiveLimit retryLimit)
  have small : (if count % 4 > 0 then 2 else 0) ≤ 8 := by
    split <;> decide
  have stored := serves.storedBytes small saves
  have counted := serves.generated
  have loop :
      (plainUint16Loop device dest count retryLimit
        position).generated = count := by
    rw [plainUint16Loop, serve_complete saves, List.length_replicate]
  constructor
  · intro whole
    have returned := whole.returned
    by_contra more
    rw [stored, returned, if_pos (by omega)] at counted
    omega
  · intro few
    have head :
        (if count % 4 > 0 then 2 else 0) = 2 * (count % 4) := by
      split <;> omega
    rw [head] at stored
    have returned :
        (rdrandGetUint16ArrayRetry device dest count retryLimit
          position).generated = count := by
      omega
    refine ⟨returned, ?_, returned.trans loop.symm⟩
    intro address atLeast below
    rw [serves.covers_iff (arrayPieces_small small _), stored]
    omega

end Uint16

/-- Five elements: a head of one, and one word. -/
theorem rdrandGetUint16ArrayRetry_whole_iff_five :
    FillsLikeLoop .counting 0 5 10 0 ↔ 5 % 4 ≤ 1 :=
  rdrandGetUint16ArrayRetry_whole_iff Device.counting_neverFails 0
    (by decide) 10 0

/-- Of two elements only the head is generated. -/
theorem rdrandGetUint16ArrayRetry_half :
    Device.counting.NeverFails ∧
      (rdrandGetUint16ArrayRetry .counting 0 2 10 0).generated = 1 ∧
      ¬ FillsLikeLoop .counting 0 2 10 0 := by
  have one :
      (rdrandGetUint16ArrayRetry .counting 0 2 10 0).generated = 1 := by
    decide
  refine ⟨Device.counting_neverFails, one, ?_⟩
  intro whole
  have returned := whole.returned
  rw [one] at returned
  cases returned

end RdRand
