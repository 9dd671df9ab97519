import RdRand.NarrowArrays

namespace RdRand

/-!
# The functions that force a reseed

`rdrand_get_uint64_array_reseed_delay` is `rdrand_get_uint64_array_retry` with
pauses.  `rdrand_get_uint64_array_reseed_skip` takes 1024 steps before each of
its retry loops: it is `rdrand_get_uint64_array_retry` on a device without
these steps.  It does not look at them, so one that failed has thrown no value
away.
-/

/-- What a fill leaves in memory, without the origins of its bytes. -/
def Fill.bytesAfter (fill : Fill) (memory : Nat → Byte) : Nat → Byte :=
  CellMemory.storeAll memory
    (fill.stores.map fun store => (store.address, store.bytes))

/-- A step of a retry loop, and how many further ones the loop has. -/
structure Attempt where
  position : Nat
  further : Nat
  deriving Repr, DecidableEq

section Reduced

variable (device : Device) (retryLimit : Int)

/-- The first attempt of the retry loop behind so many skipped steps. -/
def firstAttempt (position : Nat) : Attempt where
  position := position + skippedSteps
  further := furtherTries (effectiveLimit retryLimit)

/-- The attempt after another: the next one of its loop, or the next loop's. -/
def nextAttempt (attempt : Attempt) : Attempt :=
  if device.Delivers attempt.position ∨ attempt.further = 0 then
    firstAttempt retryLimit (attempt.position + 1)
  else
    { position := attempt.position + 1
      further := attempt.further - 1 }

/-- The attempts of all retry loops, by number. -/
def attemptAt (start : Nat) : Nat → Attempt
  | 0 => firstAttempt retryLimit start
  | index + 1 =>
      nextAttempt device retryLimit (attemptAt start index)

/-- A device without the steps before each group of attempts. -/
def Device.withoutSkips (start : Nat) : Device :=
  fun index => device (attemptAt device retryLimit start index).position

end Reduced

section Delay

variable {device : Device}

/-- A service depends on the values and the positions of its acquisitions. -/
theorem serve_congr
    {first second : Nat → Acquisition}
    (values :
      ∀ position, (first position).value = (second position).value)
    (positions :
      ∀ position, (first position).position = (second position).position)
    (pieces : List Nat)
    (dest position : Nat) :
    serve first pieces dest position =
      serve second pieces dest position := by
  induction pieces generalizing dest position with
  | nil =>
      rfl
  | cons piece rest inductionHypothesis =>
      cases saved : (second position).value with
      | none =>
          rw [serve_short saved,
            serve_short ((values position).trans saved), positions]
      | some value =>
          rw [serve_served saved,
            serve_served ((values position).trans saved), positions,
            inductionHypothesis]

/-- The single-value function saves what the inline loop saves. -/
theorem rdrandGetUint64Retry_eq_inline
    (device : Device)
    (retryLimit : Int)
    (position : Nat) :
    (rdrandGetUint64Retry device retryLimit position).value =
        (acquireInline device (effectiveLimit retryLimit)
          position).value ∧
      (rdrandGetUint64Retry device retryLimit position).position =
        (acquireInline device (effectiveLimit retryLimit)
          position).position := by
  unfold rdrandGetUint64Retry acquireInline
  simp only
  split
  · exact ⟨rfl, rfl⟩
  · exact ⟨rfl, rfl⟩

theorem rdrandGetUint64Retry_effectiveLimit
    (device : Device)
    (retryLimit : Int) :
    rdrandGetUint64Retry device (effectiveLimit retryLimit) =
      rdrandGetUint64Retry device retryLimit := by
  funext position
  unfold rdrandGetUint64Retry
  rw [effectiveLimit_effectiveLimit]

/-- The delaying function does what the plain one does. -/
theorem reseedDelay_eq
    (dest count : Nat)
    (retryLimit : Int)
    (position : Nat) :
    rdrandGetUint64ArrayReseedDelay device dest count retryLimit
        position =
      rdrandGetUint64ArrayRetry device dest count retryLimit
        position := by
  unfold rdrandGetUint64ArrayReseedDelay rdrandGetUint64ArrayRetry
  rw [rdrandGetUint64Retry_effectiveLimit,
    fillWords_eq_serve (rdrandGetUint64Retry_sound device retryLimit),
    fillWords_eq_serve
      (acquireInline_sound device (effectiveLimit retryLimit))]
  have same := rdrandGetUint64Retry_eq_inline device retryLimit
  exact
    serve_congr (fun current => (same current).1)
      (fun current => (same current).2)
      (List.replicate count 8) dest position

/-- The acquisitions of the skipping function. -/
def acquireSkipping
    (device : Device)
    (retryLimit : Int)
    (position : Nat) : Acquisition :=
  rdrandGetUint64Retry device retryLimit (position + skippedSteps)

theorem acquireSkipping_sound
    (device : Device)
    (retryLimit : Int)
    (position : Nat) :
    (acquireSkipping device retryLimit position).Sound
      device position :=
  (rdrandGetUint64Retry_sound device retryLimit
    (position + skippedSteps)).since
      (Nat.le_add_right position skippedSteps)

/-- The skipping function serves words, each behind its skipped steps. -/
theorem reseedSkip_eq_serve
    (dest count : Nat)
    (retryLimit : Int)
    (position : Nat) :
    rdrandGetUint64ArrayReseedSkip device dest count retryLimit
        position =
      serve (acquireSkipping device retryLimit)
        (List.replicate count 8) dest position := by
  unfold rdrandGetUint64ArrayReseedSkip
  rw [rdrandGetUint64Retry_effectiveLimit]
  exact
    fillWords_eq_serve (acquireSkipping_sound device retryLimit)
      count dest position

end Delay

section Simulation

variable {device : Device} {retryLimit : Int} {start : Nat}

/-- An attempt that another one follows in its loop. -/
theorem attemptAt_succ_of_fails
    {index position further : Nat}
    (attempt :
      attemptAt device retryLimit start index =
        { position := position, further := further + 1 })
    (fails : ¬ device.Delivers position) :
    attemptAt device retryLimit start (index + 1) =
      { position := position + 1, further := further } := by
  rw [attemptAt, attempt, nextAttempt]
  simp [fails]

/-- An attempt that ends its loop. -/
theorem attemptAt_succ_of_ends
    {index position further : Nat}
    (attempt :
      attemptAt device retryLimit start index =
        { position := position, further := further })
    (ends : device.Delivers position ∨ further = 0) :
    attemptAt device retryLimit start (index + 1) =
      firstAttempt retryLimit (position + 1) := by
  rw [attemptAt, attempt, nextAttempt]
  simp only [if_pos ends]

/--
A retry loop on the device without the skipped steps has the outcome of the
one on the device, and is followed by the first attempt of the next loop.
-/
theorem retryStep_withoutSkips
    (documented : device.Documented)
    {index position further : Nat}
    (attempt :
      attemptAt device retryLimit start index =
        { position := position, further := further }) :
    (retryStep (device.withoutSkips retryLimit start) further
        index).1 =
      (retryStep device further position).1 ∧
      attemptAt device retryLimit start
        (retryStep (device.withoutSkips retryLimit start) further
          index).2 =
        firstAttempt retryLimit
          (retryStep device further position).2 := by
  have here :
      device.withoutSkips retryLimit start index = device position := by
    rw [Device.withoutSkips, attempt]
  induction further generalizing index position with
  | zero =>
      exact ⟨here, attemptAt_succ_of_ends attempt (.inr rfl)⟩
  | succ further inductionHypothesis =>
      unfold retryStep
      rw [here]
      split
      · next failed =>
          have fails : ¬ device.Delivers position := by
            intro delivers
            rw [Device.Delivers, failed] at delivers
            cases delivers
          have next := attemptAt_succ_of_fails attempt fails
          exact
            inductionHypothesis next (by rw [Device.withoutSkips, next])
      · next notFailed =>
          have delivers : device.Delivers position :=
            (documented position).resolve_right notFailed
          exact
            ⟨rfl, attemptAt_succ_of_ends attempt (.inl delivers)⟩

/--
A service on the device without the skipped steps serves as many pieces, with
the same bytes, as one that skips them.
-/
theorem serve_withoutSkips
    (documented : device.Documented)
    (pieces : List Nat)
    (dest : Nat)
    {index position : Nat}
    (attempt :
      attemptAt device retryLimit start index =
        firstAttempt retryLimit position) :
    (serve (acquireSkipping device retryLimit) pieces dest
        position).generated =
      (serve
        (acquireInline (device.withoutSkips retryLimit start)
          (effectiveLimit retryLimit))
        pieces dest index).generated ∧
      (serve (acquireSkipping device retryLimit) pieces dest
        position).stores.map
          (fun store => (store.address, store.bytes)) =
      (serve
        (acquireInline (device.withoutSkips retryLimit start)
          (effectiveLimit retryLimit))
        pieces dest index).stores.map
          (fun store => (store.address, store.bytes)) := by
  induction pieces generalizing dest index position with
  | nil =>
      exact ⟨rfl, rfl⟩
  | cons piece rest inductionHypothesis =>
      obtain ⟨outcome, next⟩ :=
        retryStep_withoutSkips documented attempt
      obtain ⟨inlineValue, inlinePosition⟩ :=
        rdrandGetUint64Retry_eq_inline device retryLimit
          (position + skippedSteps)
      have values :
          (acquireInline (device.withoutSkips retryLimit start)
            (effectiveLimit retryLimit) index).value =
            (acquireSkipping device retryLimit position).value := by
        rw [acquireSkipping, inlineValue]
        simp only [acquireInline, outcome]
      cases saved :
          (acquireSkipping device retryLimit position).value with
      | none =>
          rw [serve_short saved, serve_short (values.trans saved)]
          exact ⟨rfl, rfl⟩
      | some value =>
          obtain ⟨generated, stores⟩ :=
            inductionHypothesis (dest + piece)
              (next.trans
                (congrArg (firstAttempt retryLimit)
                  inlinePosition.symm))
          rw [serve_served saved, serve_served (values.trans saved)]
          simp only [List.map_cons]
          exact
            ⟨congrArg (· + 1) generated,
              congrArg ((dest, (wordBytes value).take piece) :: ·)
                stores⟩

end Simulation

/--
The delaying function does all that the plain one does.  The skipping function
returns and stores what the plain one does on the device without the steps it
skips.
-/
theorem reseedMethods_refine
    {device : Device}
    (documented : device.Documented)
    (dest count : Nat)
    (retryLimit : Int)
    (position : Nat) :
    rdrandGetUint64ArrayReseedDelay device dest count retryLimit
        position =
        rdrandGetUint64ArrayRetry device dest count retryLimit
          position ∧
      (rdrandGetUint64ArrayReseedSkip device dest count retryLimit
        position).generated =
        (rdrandGetUint64ArrayRetry
          (device.withoutSkips retryLimit position) dest count
          retryLimit 0).generated ∧
      ∀ memory,
        (rdrandGetUint64ArrayReseedSkip device dest count retryLimit
          position).bytesAfter memory =
          (rdrandGetUint64ArrayRetry
            (device.withoutSkips retryLimit position) dest count
            retryLimit 0).bytesAfter memory := by
  obtain ⟨generated, stores⟩ :=
    serve_withoutSkips documented (List.replicate count 8) dest
      (show
        attemptAt device retryLimit position 0 =
          firstAttempt retryLimit position from rfl)
  have plain :
      rdrandGetUint64ArrayRetry
          (device.withoutSkips retryLimit position) dest count
          retryLimit 0 =
        serve
          (acquireInline (device.withoutSkips retryLimit position)
            (effectiveLimit retryLimit))
          (List.replicate count 8) dest 0 :=
    fillWords_eq_serve
      (acquireInline_sound (device.withoutSkips retryLimit position)
        (effectiveLimit retryLimit))
      count dest 0
  refine ⟨reseedDelay_eq dest count retryLimit position, ?_, ?_⟩
  · rw [reseedSkip_eq_serve, plain]
    exact generated
  · intro memory
    rw [reseedSkip_eq_serve, plain]
    simp only [Fill.bytesAfter, stores]

/-- Two values from a device that fails three times at first. -/
theorem reseedMethods_refine_lateBy :
    rdrandGetUint64ArrayReseedDelay (.lateBy 3) 0 2 (-1) 0 =
        rdrandGetUint64ArrayRetry (.lateBy 3) 0 2 (-1) 0 ∧
      (rdrandGetUint64ArrayReseedSkip (.lateBy 3) 0 2 (-1)
        0).generated =
        (rdrandGetUint64ArrayRetry
          ((Device.lateBy 3).withoutSkips (-1) 0) 0 2 (-1)
          0).generated ∧
      ∀ memory,
        (rdrandGetUint64ArrayReseedSkip (.lateBy 3) 0 2 (-1)
          0).bytesAfter memory =
          (rdrandGetUint64ArrayRetry
            ((Device.lateBy 3).withoutSkips (-1) 0) 0 2 (-1)
            0).bytesAfter memory :=
  reseedMethods_refine (Device.lateBy_documented 3) 0 2 (-1) 0

/-- Before each saved value at least 1024 others were drawn, not saved. -/
def DiscardLaw (device : Device) : Nat → List Nat → Prop
  | _, [] => True
  | since, saved :: later =>
      skippedSteps ≤ (device.deliveries since saved).length ∧
        DiscardLaw device (saved + 1) later

/-- Before each value that is saved, all skipped steps deliver. -/
def SkipsDeliver
    (device : Device)
    (retryLimit : Int) : Nat → Nat → Prop
  | 0, _ => True
  | count + 1, position =>
      (acquireSkipping device retryLimit position).value.isSome →
        (∀ skipped < skippedSteps,
            device.Delivers (position + skipped)) ∧
          SkipsDeliver device retryLimit count
            (acquireSkipping device retryLimit position).position

section Discards

variable {device : Device} {retryLimit : Int}

/-- A retry loop waits only for steps that do not deliver. -/
theorem retryStep_waits
    {further position step : Nat}
    (notBefore : position ≤ step)
    (before : step + 1 < (retryStep device further position).2) :
    ¬ device.Delivers step := by
  rw [retryStep_eq_retryWhile, retryWhile_eq] at before
  have early :
      step <
        BoundedRetry.lastAttempt
          (fun outcome : StepOutcome => outcome.rc = rdrandFailure)
          device further position :=
    Nat.lt_of_succ_lt_succ before
  have failed :=
    BoundedRetry.again_of_lt_lastAttempt notBefore early
  intro delivers
  rw [Device.Delivers, failed] at delivers
  cases delivers

/-- So many steps deliver so often exactly where all of them do. -/
theorem Device.le_deliveries_length_iff
    {position length : Nat} :
    length ≤
        (device.deliveries position (position + length)).length ↔
      ∀ earlier < length, device.Delivers (position + earlier) := by
  have steps :
      (List.range' position length).length = length :=
    List.length_range'
  unfold deliveries
  rw [Nat.add_sub_cancel_left]
  constructor
  · intro enough earlier before
    have most :=
      List.length_filter_le
        (fun current => decide (device.Delivers current))
        (List.range' position length)
    have all :=
      List.length_filter_eq_length_iff.mp
        (Nat.le_antisymm most (by rw [steps]; exact enough))
    have delivers :=
      all (position + earlier)
        (List.mem_range'_1.mpr ⟨Nat.le_add_right _ _, by omega⟩)
    simpa using delivers
  · intro all
    have whole :
        (List.range' position length).filter
            (fun current => decide (device.Delivers current)) =
          List.range' position length := by
      apply List.filter_eq_self.mpr
      intro step member
      obtain ⟨notBefore, before⟩ := List.mem_range'_1.mp member
      have delivers := all (step - position) (by omega)
      rw [Nat.add_sub_cancel' notBefore] at delivers
      simpa using delivers
    rw [whole, steps]

/-- Values are drawn before a saved one in the skipped steps only. -/
theorem acquireSkipping_discards
    (position : Nat) :
    device.deliveries position
        ((acquireSkipping device retryLimit position).position - 1) =
      device.deliveries position (position + skippedSteps) := by
  have advances :=
    retryStep_advances device
      (furtherTries (effectiveLimit retryLimit))
      (position + skippedSteps)
  have ends :
      (acquireSkipping device retryLimit position).position =
        (retryStep device (furtherTries (effectiveLimit retryLimit))
          (position + skippedSteps)).2 :=
    (rdrandGetUint64Retry_eq_inline device retryLimit
      (position + skippedSteps)).2
  have waited :
      device.deliveries (position + skippedSteps)
        ((acquireSkipping device retryLimit position).position - 1) =
          [] := by
    apply List.eq_nil_iff_forall_not_mem.mpr
    intro step member
    obtain ⟨notBefore, before, delivers⟩ :=
      Device.mem_deliveries.mp member
    have early :
        step + 1 <
          (retryStep device (furtherTries (effectiveLimit retryLimit))
            (position + skippedSteps)).2 := by
      rw [← ends]
      omega
    exact retryStep_waits notBefore early delivers
  rw [Device.deliveries_append (Nat.le_add_right _ _)
      (show
        position + skippedSteps ≤
          (acquireSkipping device retryLimit position).position - 1 by
        omega),
    waited, List.append_nil]

/-- The saved values of a service obey the law where all skips deliver. -/
theorem serve_discardLaw_iff
    (count dest position : Nat) :
    DiscardLaw device position
        ((serve (acquireSkipping device retryLimit)
          (List.replicate count 8) dest position).stores.map
            Store.origin) ↔
      SkipsDeliver device retryLimit count position := by
  induction count generalizing dest position with
  | zero =>
      exact ⟨fun _ => trivial, fun _ => trivial⟩
  | succ count inductionHypothesis =>
      have advances :=
        (acquireSkipping_sound device retryLimit position).advances
      rw [List.replicate_succ]
      cases saved :
          (acquireSkipping device retryLimit position).value with
      | none =>
          rw [serve_short saved]
          simp [DiscardLaw, SkipsDeliver, saved]
      | some value =>
          rw [serve_served saved]
          have next :
              (acquireSkipping device retryLimit position).position -
                  1 + 1 =
                (acquireSkipping device retryLimit position).position :=
            Nat.sub_add_cancel (Nat.one_le_of_lt advances)
          simp only [List.map_cons, DiscardLaw, SkipsDeliver, saved,
            Option.isSome_some, forall_const, next,
            inductionHypothesis, acquireSkipping_discards,
            Device.le_deliveries_length_iff]

end Discards

/--
Between the values that `rdrand_get_uint64_array_reseed_skip` saves, and
before the first one, 1024 others are drawn exactly where none of the steps it
skips before a saved value fails.
-/
theorem reseedSkip_discardLaw_iff
    (device : Device)
    (dest count : Nat)
    (retryLimit : Int)
    (position : Nat) :
    DiscardLaw device position
        ((rdrandGetUint64ArrayReseedSkip device dest count retryLimit
          position).stores.map Store.origin) ↔
      SkipsDeliver device retryLimit count position := by
  rw [reseedSkip_eq_serve]
  exact serve_discardLaw_iff count dest position

/-- A first step that fails leaves 1023 values to throw away. -/
theorem reseedSkip_starved :
    (rdrandGetUint64ArrayReseedSkip (.lateBy 1) 0 1 10
        0).stores.map Store.origin = [1024] ∧
      ¬ DiscardLaw (.lateBy 1) 0
        ((rdrandGetUint64ArrayReseedSkip (.lateBy 1) 0 1 10
          0).stores.map Store.origin) := by
  have saved :
      (rdrandGetUint64ArrayReseedSkip (.lateBy 1) 0 1 10
        0).stores.map Store.origin = [1024] := by
    decide
  refine ⟨saved, ?_⟩
  rw [saved]
  rintro ⟨enough, _⟩
  have delivers :=
    Device.le_deliveries_length_iff.mp
      (show
        skippedSteps ≤
          ((Device.lateBy 1).deliveries 0 (0 + skippedSteps)).length
        from enough)
      0 (by decide)
  exact absurd delivers (by decide)

end RdRand
