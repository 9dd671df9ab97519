import RdRand.SegmentRuns

namespace RdRand

/-!
# Filling bytes

`rdrand_get_bytes_retry` serves three segments: the bytes before the first
aligned word, the aligned words, and the rest.  It never stores outside its
target or twice, but it goes on with the next segment after one that came
short, and so what it has filled need not be a front of the target.
-/

/-- The pieces of an array of bytes. -/
def bytePieces (count : Nat) : List Nat :=
  arrayPieces (count % 8) (count / 8)

/-- The pieces of the three segments of `rdrand_get_bytes_retry`. -/
def Layout.segments (layout : Layout) : List (List Nat) :=
  [bytePieces layout.offset,
    List.replicate (layout.alignedBytes / 8) 8,
    bytePieces (layout.alignedBytes % 8)]

@[simp] theorem bytePieces_sum (count : Nat) :
    (bytePieces count).sum = count := by
  rw [bytePieces, arrayPieces_sum, Nat.mod_add_div]

theorem bytePieces_small (count : Nat) :
    ∀ piece ∈ bytePieces count, piece ≤ 8 :=
  arrayPieces_small
    (Nat.le_of_lt (Nat.mod_lt count (by decide))) (count / 8)

theorem bytePieces_positive (count : Nat) :
    ∀ piece ∈ bytePieces count, 0 < piece :=
  arrayPieces_positive (count % 8) (count / 8)

namespace Fill

@[simp] theorem storedBytes_andThen (first second : Fill) :
    (first.andThen second).storedBytes =
      first.storedBytes + second.storedBytes := by
  simp [andThen, storedBytes]

/-- A skipped fill serves no pieces. -/
theorem Serves.unlessZero
    {acquire : Nat → Acquisition}
    {pieces : List Nat}
    {unit dest position count : Nat}
    {fill : Fill}
    (serves :
      count ≠ 0 → fill.Serves acquire pieces unit dest position)
    (empty : count = 0 → pieces = []) :
    (Fill.unlessZero count fill position).Serves
      acquire pieces unit dest position := by
  by_cases skipped : count = 0
  · rw [empty skipped]
    simp only [Fill.unlessZero, skipped, ne_eq, not_true_eq_false,
      if_false]
    exact ⟨rfl, rfl, Nat.mul_zero unit⟩
  · simpa only [Fill.unlessZero, ne_eq, skipped, not_false_eq_true,
      if_true] using serves skipped

end Fill

namespace Layout

variable (layout : Layout)

@[simp] theorem segments_sum :
    layout.segments.flatten.sum =
      layout.offset + layout.alignedBytes := by
  simp only [segments, List.flatten_cons, List.flatten_nil,
    List.sum_append, bytePieces_sum, List.sum_replicate_nat,
    List.sum_nil]
  omega

theorem mem_segments {piece : Nat} :
    piece ∈ layout.segments.flatten ↔
      piece ∈ bytePieces layout.offset ∨
        piece ∈ List.replicate (layout.alignedBytes / 8) 8 ∨
        piece ∈ bytePieces (layout.alignedBytes % 8) := by
  simp only [segments, List.flatten_cons, List.flatten_nil,
    List.append_nil, List.mem_append]

theorem segments_small :
    ∀ piece ∈ layout.segments.flatten, piece ≤ 8 := by
  intro piece member
  rcases layout.mem_segments.mp member with inHead | inBody | inTail
  · exact bytePieces_small _ piece inHead
  · exact Nat.le_of_eq (List.eq_of_mem_replicate inBody)
  · exact bytePieces_small _ piece inTail

theorem segments_positive :
    ∀ piece ∈ layout.segments.flatten, 0 < piece := by
  intro piece member
  rcases layout.mem_segments.mp member with inHead | inBody | inTail
  · exact bytePieces_positive _ piece inHead
  · rw [List.eq_of_mem_replicate inBody]
    decide
  · exact bytePieces_positive _ piece inTail

end Layout

section Run

variable
  (device : Device)
  (start size : Nat)
  (retryLimit : Int)
  (position : Nat)

/-- A segment of bytes serves the pieces of its bytes. -/
theorem byteSegment_serves
    {count : Nat}
    (fits : count < uintModulus)
    (dest : Nat) :
    (Fill.unlessZero count
      (rdrandGetUint8ArrayRetry device dest count
        (effectiveLimit retryLimit) position)
      position).Serves
        (acquireInline device (effectiveLimit retryLimit))
        (bytePieces count) 1 dest position := by
  apply Fill.Serves.unlessZero
  · intro _
    have serves :=
      rdrandGetUint8ArrayRetry_serves device (effectiveLimit retryLimit)
        dest position fits
    rwa [effectiveLimit_effectiveLimit] at serves
  · rintro rfl
    rfl

/-- The segment of aligned words serves its words. -/
theorem wordSegment_serves
    {words : Nat}
    (fits : 8 * words < uintModulus)
    (dest : Nat) :
    (Fill.unlessZero words
      (rdrandGetUint64ArrayRetry device dest words
        (effectiveLimit retryLimit) position).inBytes
      position).Serves
        (acquireInline device (effectiveLimit retryLimit))
        (List.replicate words 8) 1 dest position := by
  apply Fill.Serves.unlessZero
  · intro _
    exact
      inLanes_serves device retryLimit dest position (by decide) fits
  · rintro rfl
    rfl

/--
`rdrand_get_bytes_retry` is a run of the three segments, and returns the
number of bytes it has stored.
-/
theorem rdrandGetBytesRetry_run :
    SegmentRun (acquireInline device (effectiveLimit retryLimit))
        (layoutOf start size).segments start position
        (rdrandGetBytesRetry device start size retryLimit
          position).stores
        (rdrandGetBytesRetry device start size retryLimit
          position).position ∧
      (rdrandGetBytesRetry device start size retryLimit
          position).generated =
        (rdrandGetBytesRetry device start size retryLimit
          position).storedBytes := by
  have offsetSmall := layoutOf_offset_small start size
  have alignedStart := layoutOf_alignedStart start size
  have fits := layoutOf_alignedBytes_fit start size
  have uintLarge : 8 < uintModulus := by
    decide
  unfold rdrandGetBytesRetry
  simp only
  generalize layoutOf start size = layout at *
  have words :
      (layout.alignedBytes - layout.alignedBytes % 8) / 8 =
        layout.alignedBytes / 8 := by
    omega
  rw [words]
  have headServes :=
    byteSegment_serves device retryLimit position
      (show layout.offset < uintModulus by omega) start
  generalize
    Fill.unlessZero layout.offset _ position = head at headServes ⊢
  have bodyServes :=
    wordSegment_serves device retryLimit head.position
      (show 8 * (layout.alignedBytes / 8) < uintModulus by omega)
      layout.alignedStart
  generalize
    Fill.unlessZero (layout.alignedBytes / 8) _ head.position = body
      at bodyServes ⊢
  have tailServes :=
    byteSegment_serves device retryLimit body.position
      (show layout.alignedBytes % 8 < uintModulus by omega)
      (layout.alignedStart + 8 * (layout.alignedBytes / 8))
  generalize
    Fill.unlessZero (layout.alignedBytes % 8) _ body.position = tail
      at tailServes ⊢
  constructor
  · have run :
        SegmentRun (acquireInline device (effectiveLimit retryLimit))
          layout.segments start position
          (head.stores ++ (body.stores ++ (tail.stores ++ [])))
          tail.position := by
      apply SegmentRun.afterFill headServes
      rw [bytePieces_sum, ← alignedStart]
      apply SegmentRun.afterFill bodyServes
      rw [List.sum_replicate_nat, Nat.mul_comm]
      exact SegmentRun.afterFill tailServes .finished
    simpa only [Fill.andThen, List.append_nil, List.append_assoc]
      using run
  · have headBytes := headServes.generated
    have bodyBytes := bodyServes.generated
    have tailBytes := tailServes.generated
    simp only [Nat.one_mul] at headBytes bodyBytes tailBytes
    simp only [Fill.storedBytes_andThen, ← headBytes, ← bodyBytes,
      ← tailBytes]
    rfl

end Run

/--
What a fill of some bytes stores: only bytes of the target, each at most once,
as many as it returns, each value taken from a successful step of its own, and
words at aligned addresses only.
-/
structure StoresOnce
    (device : Device)
    (start size position : Nat)
    (fill : Fill) : Prop where
  inside :
    ∀ store ∈ fill.stores,
      start ≤ store.address ∧
        store.address + store.bytes.length ≤ start + size
  once :
    fill.stores.Pairwise fun first second =>
      ∀ address, ¬ (first.Covers address ∧ second.Covers address)
  amount : fill.generated = fill.storedBytes
  fromDevice :
    ∀ store ∈ fill.stores,
      store.FromDevice device position fill.position
  distinct : (fill.stores.map Store.origin).Nodup
  aligned :
    ∀ store ∈ fill.stores,
      store.bytes.length = 8 → store.address % 8 = 0

section Frame

variable {start size : Nat}

/-- The words of an array of bytes are as aligned as the first one. -/
theorem bytePieces_words_aligned
    {address count : Nat}
    (aligned : 8 ≤ count → 8 ∣ address + count % 8) :
    ∀ extent ∈ CellMemory.extents address (bytePieces count),
      extent.2 = 8 → 8 ∣ extent.1 := by
  intro extent member word
  have lane : count % 8 < 8 := Nat.mod_lt count (by decide)
  rw [bytePieces, arrayPieces, CellMemory.extents_append] at member
  rcases List.mem_append.mp member with inHead | inWords
  · have length := CellMemory.length_mem_of_mem_extents extent inHead
    split at length
    · have head := List.mem_singleton.mp length
      omega
    · cases length
  · have length := CellMemory.length_mem_of_mem_extents extent inWords
    have some : count / 8 ≠ 0 := (List.mem_replicate.mp length).1
    have headSum :
        (if count % 8 > 0 then [count % 8] else []).sum =
          count % 8 := by
      split
      · simp
      · simp only [List.sum_nil]
        omega
    rw [headSum] at inWords
    refine CellMemory.extents_aligned (aligned (by omega)) ?_ _ inWords
    intro other isWord
    rw [List.eq_of_mem_replicate isWord]

/-- A piece of eight bytes is an aligned word. -/
theorem layoutOf_words_aligned :
    ∀ extent ∈
        CellMemory.extents start
          (layoutOf start size).segments.flatten,
      extent.2 = 8 → 8 ∣ extent.1 := by
  intro extent member word
  have headAligned :
      8 ≤ (layoutOf start size).offset →
        8 ∣ start + (layoutOf start size).offset % 8 := by
    rcases layoutOf_cases start size with ⟨_, layout⟩ | ⟨_, layout⟩
    · simp [layout]
    · rw [layout]
      simp only
      omega
  have bodyAligned :
      8 ≤ (layoutOf start size).alignedBytes →
        8 ∣ start + (layoutOf start size).offset := by
    rcases layoutOf_cases start size with ⟨small, layout⟩ | ⟨_, layout⟩
    · rw [layout]
      simp only
      omega
    · rw [layout]
      simp only
      omega
  generalize layoutOf start size = layout at *
  simp only [Layout.segments, List.flatten_cons, List.flatten_nil,
    List.append_nil, CellMemory.extents_append, bytePieces_sum,
    List.mem_append] at member
  rcases member with inHead | inBody | inTail
  · exact bytePieces_words_aligned headAligned extent inHead word
  · have length := CellMemory.length_mem_of_mem_extents extent inBody
    have some : layout.alignedBytes / 8 ≠ 0 :=
      (List.mem_replicate.mp length).1
    refine
      CellMemory.extents_aligned (bodyAligned (by omega)) ?_ _ inBody
    intro other isWord
    rw [List.eq_of_mem_replicate isWord]
  · refine bytePieces_words_aligned ?_ extent inTail word
    intro noWord
    omega

end Frame

/--
`rdrand_get_bytes_retry` stores inside its target, no byte and no value twice,
and returns how many bytes it has stored.
-/
theorem rdrandGetBytesRetry_storesOnce
    (device : Device)
    (start size : Nat)
    (retryLimit : Int)
    (position : Nat) :
    StoresOnce device start size position
      (rdrandGetBytesRetry device start size retryLimit position) := by
  obtain ⟨run, amount⟩ :=
    rdrandGetBytesRetry_run device start size retryLimit position
  have acquires := acquireInline_sound device (effectiveLimit retryLimit)
  have small := (layoutOf start size).segments_small
  refine
    { inside := ?_
      once := ?_
      amount := amount
      fromDevice := run.fromDevice acquires small
      distinct := (run.origins_increase acquires small).imp Nat.ne_of_lt
      aligned := ?_ }
  · intro store member
    have within :=
      CellMemory.extents_within _ (run.extent_mem small member)
    have whole := layoutOf_le start size
    rw [Layout.segments_sum] at within
    simp only [Store.extent] at within
    omega
  · apply (run.ordered small).imp
    rintro first second before address ⟨inFirst, inSecond⟩
    have upper := inFirst.2
    have lower := inSecond.1
    omega
  · intro store member word
    exact
      Nat.mod_eq_zero_of_dvd
        (layoutOf_words_aligned _ (run.extent_mem small member) word)

/--
`rdrand_get_bytes_retry` obeys the prefix law exactly where, after the first
retry loop that is exhausted, every other one that it enters is exhausted, too.
-/
theorem rdrandGetBytesRetry_prefixLaw_iff
    (device : Device)
    (start size : Nat)
    (retryLimit : Int)
    (position : Nat) :
    PrefixLaw device start size position
        (rdrandGetBytesRetry device start size retryLimit position) ↔
      StaysShort (acquireInline device (effectiveLimit retryLimit))
        (layoutOf start size).segments position := by
  obtain ⟨run, amount⟩ :=
    rdrandGetBytesRetry_run device start size retryLimit position
  exact
    run.prefixLaw_iff amount
      (acquireInline_sound device (effectiveLimit retryLimit))
      (layoutOf start size).segments_small
      (layoutOf start size).segments_positive size

/--
A device that fails once gives no value to the first of two words, but gives
one to the second.
-/
theorem rdrandGetBytesRetry_not_prefixLaw :
    (rdrandGetBytesRetry (.lateBy 1) 0 16 1 0).generated = 8 ∧
      ¬ PrefixLaw (.lateBy 1) 0 16 0
        (rdrandGetBytesRetry (.lateBy 1) 0 16 1 0) := by
  have half :
      (rdrandGetBytesRetry (.lateBy 1) 0 16 1 0).generated = 8 := by
    decide
  refine ⟨half, ?_⟩
  intro law
  obtain ⟨store, member, covers⟩ :=
    law.covers (show 0 < _ by rw [half]; decide)
  have behind :
      ∀ store ∈
          (rdrandGetBytesRetry (.lateBy 1) 0 16 1 0).stores,
        8 ≤ store.address := by
    decide
  have lower := behind store member
  have upper := covers.1
  omega

/-- A fill of some bytes returns their number and has stored all of them. -/
structure FillsWhole
    (start size : Nat)
    (fill : Fill) : Prop where
  returned : fill.generated = size
  filled :
    ∀ address,
      start ≤ address →
      address < start + size →
      fill.Covers address

/--
Without failures `rdrand_get_bytes_retry` fills its whole target exactly where
the bytes behind the unaligned front can be counted in an `unsigned int`.
-/
theorem rdrandGetBytesRetry_whole_iff
    {device : Device}
    (neverFails : device.NeverFails)
    (start size : Nat)
    (retryLimit : Int)
    (position : Nat) :
    FillsWhole start size
        (rdrandGetBytesRetry device start size retryLimit position) ↔
      size < uintModulus + (8 - start % 8) := by
  obtain ⟨run, amount⟩ :=
    rdrandGetBytesRetry_run device start size retryLimit position
  have total :=
    rdrandGetBytesRetry_generated_eq neverFails start size retryLimit
      position
  have law :=
    (run.prefixLaw_iff amount
      (acquireInline_sound device (effectiveLimit retryLimit))
      (layoutOf start size).segments_small
      (layoutOf start size).segments_positive size).mpr
        (run.staysShort
          (acquireInline_saves neverFails (effectiveLimit retryLimit)))
  rw [← layoutOf_whole_iff, ← total]
  constructor
  · exact FillsWhole.returned
  · intro returned
    refine ⟨returned, ?_⟩
    intro address atLeast below
    have covers :=
      law.covers (show address - start < _ by rw [returned]; omega)
    rwa [Nat.add_sub_cancel' atLeast] at covers

/-- Thirteen bytes from an unaligned address. -/
theorem rdrandGetBytesRetry_whole_iff_thirteen :
    FillsWhole 3 13 (rdrandGetBytesRetry .counting 3 13 10 0) ↔
      13 < uintModulus + (8 - 3 % 8) :=
  rdrandGetBytesRetry_whole_iff Device.counting_neverFails 3 13 10 0

/-- Of eight bytes more than an `unsigned int` counts eight are filled. -/
theorem rdrandGetBytesRetry_truncated :
    Device.counting.NeverFails ∧
      (rdrandGetBytesRetry .counting 0 (2 ^ 32 + 8) 10 0).generated =
        8 ∧
      ¬ FillsWhole 0 (2 ^ 32 + 8)
        (rdrandGetBytesRetry .counting 0 (2 ^ 32 + 8) 10 0) := by
  have eight :
      (rdrandGetBytesRetry .counting 0 (2 ^ 32 + 8) 10 0).generated =
        8 := by
    decide
  refine ⟨Device.counting_neverFails, eight, ?_⟩
  intro whole
  have returned := whole.returned
  rw [eight] at returned
  cases returned

end RdRand
