import RdRand.ArrayFill

namespace RdRand

/-!
# Soundness of the fill functions

Every fill function of the library is `Fill.Sound` for targets whose size an
`unsigned int` holds, and on a device that never fails it generates its whole
target.
-/

/-- `rdrand_get_uint64_array_retry` is a sound fill of words. -/
theorem rdrandGetUint64ArrayRetry_sound
    (device : Device)
    (dest count : Nat)
    (retryLimit : Int)
    (position : Nat) :
    (rdrandGetUint64ArrayRetry device dest count retryLimit position).Sound
      device position dest 8 count :=
  fillWords_sound (acquireInline_sound device (effectiveLimit retryLimit))
    count dest position

/-- `rdrand_get_uint64_array_reseed_delay` is a sound fill of words. -/
theorem rdrandGetUint64ArrayReseedDelay_sound
    (device : Device)
    (dest count : Nat)
    (retryLimit : Int)
    (position : Nat) :
    (rdrandGetUint64ArrayReseedDelay
      device dest count retryLimit position).Sound
        device position dest 8 count :=
  fillWords_sound
    (rdrandGetUint64Retry_sound device (effectiveLimit retryLimit))
    count dest position

/-- `rdrand_get_uint64_array_reseed_skip` is a sound fill of words. -/
theorem rdrandGetUint64ArrayReseedSkip_sound
    (device : Device)
    (dest count : Nat)
    (retryLimit : Int)
    (position : Nat) :
    (rdrandGetUint64ArrayReseedSkip
      device dest count retryLimit position).Sound
        device position dest 8 count := by
  apply fillWords_sound
  intro current
  exact
    (rdrandGetUint64Retry_sound device (effectiveLimit retryLimit)
      (current + skippedSteps)).since
        (Nat.le_add_right current skippedSteps)

/-- The head of a byte fill: leading bytes of one value. -/
private theorem headStore_sound
    {device : Device}
    (dest : Nat)
    {count8 further position : Nat}
    (short : count8 ≤ 8)
    (success :
      (retryStep device further position).1.rc = rdrandSuccess) :
    (Fill.mk count8
      [{ address := dest
         bytes :=
          (wordBytes (retryStep device further position).1.value).take
            count8
         origin := (retryStep device further position).2 - 1 }]
      (retryStep device further position).2).Sound
        device position dest 1 count8 := by
  have advances := retryStep_advances device further position
  have last := retryStep_last device further position
  have length :
      ((wordBytes (retryStep device further position).1.value).take
        count8).length = count8 := by
    simp [short]
  refine ⟨Nat.le_of_lt advances, ?_, ?_, Nat.le_refl count8, ?_⟩
  · intro store member
    rw [List.mem_singleton.mp member]
    refine ⟨?_, ?_, ?_, ?_⟩
    · simp only
      omega
    · simp only
      omega
    · rw [Device.Delivers, ← last]
      exact success
    · simp only [length, ← last]
  · intro store member
    rw [List.mem_singleton.mp member]
    simp only [length]
    omega
  · intro _ address atLeast below
    refine ⟨_, List.mem_singleton_self _, atLeast, ?_⟩
    simp only [length]
    omega

/-- `rdrand_get_uint8_array_retry` is a sound fill of bytes. -/
theorem rdrandGetUint8ArrayRetry_sound
    (device : Device)
    (dest : Nat)
    {count : Nat}
    (fits : count < uintModulus)
    (retryLimit : Int)
    (position : Nat) :
    (rdrandGetUint8ArrayRetry device dest count retryLimit position).Sound
      device position dest 1 count := by
  have short : count % 8 ≤ 8 :=
    Nat.le_of_lt (Nat.mod_lt count (by decide))
  have wholeWords : 8 * (count / 8) < uintModulus := by
    omega
  unfold rdrandGetUint8ArrayRetry
  simp only
  split
  · next someHead =>
      split
      · next success =>
          have head := headStore_sound dest short success
          have words :=
            (rdrandGetUint64ArrayRetry_sound device (dest + 1 * (count % 8))
              (count / 8) (effectiveLimit retryLimit)
              (retryStep device
                (furtherTries (effectiveLimit retryLimit))
                position).2).inBytes wholeWords
          have both := head.andThen words
          rw [Nat.mod_add_div] at both
          simpa using both
      · exact Fill.empty_sound
          (Nat.le_of_lt (retryStep_advances device _ position))
          (by omega)
  · next noHead =>
      have exactWords : 8 * (count / 8) = count := by
        omega
      have words :=
        (rdrandGetUint64ArrayRetry_sound device dest (count / 8)
          (effectiveLimit retryLimit) position).inBytes wholeWords
      rw [exactWords] at words
      exact words

section Layout

variable (start size : Nat)

/-- The two ways in which `rdrand_get_bytes_retry` divides its target. -/
theorem layoutOf_cases :
    (size < 8 ∧
        layoutOf start size =
          { offset := 0, alignedStart := start, alignedBytes := size }) ∨
      (8 ≤ size ∧
        layoutOf start size =
          { offset := 8 - start % 8
            alignedStart := start + (8 - start % 8)
            alignedBytes :=
              (size - (8 - start % 8)) % uintModulus }) := by
  have lane : start % 8 < 8 := Nat.mod_lt start (by decide)
  unfold layoutOf
  by_cases small : size < 8
  · left
    have exact : size % uintModulus = size :=
      Nat.mod_eq_of_lt (Nat.lt_trans small (by decide))
    simp [small, exact]
  · right
    have someOffset : ¬ 8 - start % 8 = 0 := by
      omega
    have aligned : start / 8 * 8 + 8 = start + (8 - start % 8) := by
      omega
    simp only [small, if_false, someOffset, aligned, and_true]
    omega

theorem layoutOf_offset_small :
    (layoutOf start size).offset ≤ 8 := by
  rcases layoutOf_cases start size with ⟨_, layout⟩ | ⟨_, layout⟩
  · simp [layout]
  · simp [layout]

theorem layoutOf_alignedStart :
    (layoutOf start size).alignedStart =
      start + (layoutOf start size).offset := by
  rcases layoutOf_cases start size with ⟨_, layout⟩ | ⟨_, layout⟩
  · simp [layout]
  · simp [layout]

theorem layoutOf_alignedBytes_fit :
    (layoutOf start size).alignedBytes < uintModulus := by
  rcases layoutOf_cases start size with ⟨small, layout⟩ | ⟨_, layout⟩
  · rw [layout]
    exact Nat.lt_trans small (by decide)
  · rw [layout]
    exact Nat.mod_lt _ (by decide)

/-- The segments never hold more than the target. -/
theorem layoutOf_le :
    (layoutOf start size).offset +
      (layoutOf start size).alignedBytes ≤ size := by
  rcases layoutOf_cases start size with ⟨_, layout⟩ | ⟨_, layout⟩
  · simp [layout]
  · have reduced :=
      Nat.mod_le (size - (8 - start % 8)) uintModulus
    rw [layout]
    simp only
    omega

/-- The parts make up the target where its size survives the truncation. -/
theorem layoutOf_whole_iff :
    (layoutOf start size).offset +
        (layoutOf start size).alignedBytes = size ↔
      size < uintModulus + (8 - start % 8) := by
  have lane : start % 8 < 8 := Nat.mod_lt start (by decide)
  have uintLarge : 8 < uintModulus := by
    decide
  rcases layoutOf_cases start size with
    ⟨small, layout⟩ | ⟨large, layout⟩
  · rw [layout]
    simp only
    omega
  · rw [layout]
    simp only
    have truncated :=
      Nat.mod_eq_iff_lt (m := size - (8 - start % 8))
        (n := uintModulus) (by omega)
    omega

end Layout

/-- The three parts of a byte fill are adjacent and make up the target. -/
theorem layoutOf_parts
    (start : Nat)
    {size : Nat}
    (fits : size < uintModulus) :
    (layoutOf start size).offset ≤ 8 ∧
      (layoutOf start size).alignedStart =
        start + (layoutOf start size).offset ∧
      (layoutOf start size).offset +
        (layoutOf start size).alignedBytes = size :=
  ⟨layoutOf_offset_small start size, layoutOf_alignedStart start size,
    (layoutOf_whole_iff start size).mpr
      (Nat.lt_of_lt_of_le fits (Nat.le_add_right _ _))⟩

/-- `rdrand_get_bytes_retry` is a sound fill of bytes. -/
theorem rdrandGetBytesRetry_sound
    (device : Device)
    (start : Nat)
    {size : Nat}
    (fits : size < uintModulus)
    (retryLimit : Int)
    (position : Nat) :
    (rdrandGetBytesRetry device start size retryLimit position).Sound
      device position start 1 size := by
  obtain ⟨offsetSmall, alignedStart, parts⟩ := layoutOf_parts start fits
  have uintLarge : 8 < uintModulus := by
    decide
  unfold rdrandGetBytesRetry
  simp only
  generalize layoutOf start size = layout at *
  generalize restShape : layout.alignedBytes % 8 = rest
  generalize wordsShape : (layout.alignedBytes - rest) / 8 = qWords
  have target : layout.offset + 8 * qWords + rest = size := by
    omega
  rw [← target]
  apply Fill.Sound.andThen
  · apply Fill.Sound.andThen
    · apply Fill.unlessZero_sound
      · intro _
        exact rdrandGetUint8ArrayRetry_sound device start
          (by omega) (effectiveLimit retryLimit) position
      · exact id
    · rw [Nat.one_mul, ← alignedStart]
      apply Fill.unlessZero_sound
      · intro _
        exact
          (rdrandGetUint64ArrayRetry_sound device layout.alignedStart
            qWords (effectiveLimit retryLimit) _).inBytes (by omega)
      · omega
  · rw [Nat.one_mul, ← Nat.add_assoc, ← alignedStart]
    apply Fill.unlessZero_sound
    · intro _
      exact rdrandGetUint8ArrayRetry_sound device _
        (by omega) (effectiveLimit retryLimit) _
    · exact id

section NeverFails

variable {device : Device} (neverFails : device.NeverFails)

include neverFails

/-- Without failures the 64-bit array function saves every value. -/
theorem rdrandGetUint64ArrayRetry_generated
    (dest count : Nat)
    (retryLimit : Int)
    (position : Nat) :
    (rdrandGetUint64ArrayRetry
      device dest count retryLimit position).generated = count := by
  apply fillWords_generated
  intro current
  rw [acquireInline_of_delivers (neverFails current)]

/-- Without failures the delayed array function saves every value. -/
theorem rdrandGetUint64ArrayReseedDelay_generated
    (dest count : Nat)
    (retryLimit : Int)
    (position : Nat) :
    (rdrandGetUint64ArrayReseedDelay
      device dest count retryLimit position).generated = count := by
  apply fillWords_generated
  intro current
  rw [rdrandGetUint64Retry_of_delivers (neverFails current)]

/-- Without failures the skipping array function saves every value. -/
theorem rdrandGetUint64ArrayReseedSkip_generated
    (dest count : Nat)
    (retryLimit : Int)
    (position : Nat) :
    (rdrandGetUint64ArrayReseedSkip
      device dest count retryLimit position).generated = count := by
  apply fillWords_generated
  intro current
  rw [rdrandGetUint64Retry_of_delivers
    (neverFails (current + skippedSteps))]

/-- Without failures the byte array function fills its array. -/
theorem rdrandGetUint8ArrayRetry_generated
    (dest : Nat)
    {count : Nat}
    (fits : count < uintModulus)
    (retryLimit : Int)
    (position : Nat) :
    (rdrandGetUint8ArrayRetry
      device dest count retryLimit position).generated = count := by
  have success : ∀ current, (device current).rc = rdrandSuccess :=
    neverFails
  have wholeWords : 8 * (count / 8) % uintModulus = 8 * (count / 8) :=
    Nat.mod_eq_of_lt (by omega)
  unfold rdrandGetUint8ArrayRetry
  simp only [retryStep_of_delivers (neverFails position), success,
    Fill.andThen, Fill.inBytes, if_true,
    rdrandGetUint64ArrayRetry_generated neverFails, wholeWords]
  split
  · simp only
    omega
  · simp only
    omega

/-- Without failures a segment of bytes is generated, if it is not empty. -/
theorem byteSegment_generated
    {count : Nat}
    (fits : count < uintModulus)
    (retryLimit : Int)
    (address current position : Nat) :
    (Fill.unlessZero count
      (rdrandGetUint8ArrayRetry device address count retryLimit current)
      position).generated = count := by
  apply Fill.unlessZero_generated
  · intro _
    exact
      rdrandGetUint8ArrayRetry_generated neverFails address fits
        retryLimit current
  · exact id

/-- Without failures a segment of words is generated, if it is not empty. -/
theorem wordSegment_generated
    {words : Nat}
    (fits : 8 * words < uintModulus)
    (retryLimit : Int)
    (address current position : Nat) :
    (Fill.unlessZero words
      (rdrandGetUint64ArrayRetry device address words retryLimit
        current).inBytes
      position).generated = 8 * words := by
  apply Fill.unlessZero_generated
  · intro _
    simp only [Fill.inBytes,
      rdrandGetUint64ArrayRetry_generated neverFails]
    exact Nat.mod_eq_of_lt fits
  · omega

/-- Without failures `rdrand_get_bytes_retry` returns all of its layout. -/
theorem rdrandGetBytesRetry_generated_eq
    (start size : Nat)
    (retryLimit : Int)
    (position : Nat) :
    (rdrandGetBytesRetry
      device start size retryLimit position).generated =
        (layoutOf start size).offset +
          (layoutOf start size).alignedBytes := by
  have offsetSmall := layoutOf_offset_small start size
  have fits := layoutOf_alignedBytes_fit start size
  have uintLarge : 8 < uintModulus := by
    decide
  unfold rdrandGetBytesRetry
  simp only
  generalize layoutOf start size = layout at *
  generalize restShape : layout.alignedBytes % 8 = rest
  generalize wordsShape : (layout.alignedBytes - rest) / 8 = qWords
  have head :=
    byteSegment_generated neverFails
      (show layout.offset < uintModulus by omega)
      (effectiveLimit retryLimit)
  have body :=
    wordSegment_generated neverFails
      (show 8 * qWords < uintModulus by omega)
      (effectiveLimit retryLimit)
  have tail :=
    byteSegment_generated neverFails
      (show rest < uintModulus by omega)
      (effectiveLimit retryLimit)
  simp only [Fill.andThen, head, body, tail]
  omega

/-- Without failures `rdrand_get_bytes_retry` fills its whole target. -/
theorem rdrandGetBytesRetry_generated
    (start : Nat)
    {size : Nat}
    (fits : size < uintModulus)
    (retryLimit : Int)
    (position : Nat) :
    (rdrandGetBytesRetry
      device start size retryLimit position).generated = size := by
  rw [rdrandGetBytesRetry_generated_eq neverFails]
  exact (layoutOf_parts start fits).2.2

end NeverFails

end RdRand
