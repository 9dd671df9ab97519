import RdRand.BoundedRetry
import RdRand.Device

namespace RdRand

/-!
# Functions that get a single value

`rdrand_get_uint16_retry`, `rdrand_get_uint32_retry` and
`rdrand_get_uint64_retry` are copies of one retry loop, which do not test for
the same code: the first one retries on 0, the others on `RDRAND_FAILURE`.
Which of them retries depends on the code of a failed step, and so on the
build.
-/

/-- The two ways in which the library is built. -/
inductive Build where
  | inlineAssembly
  | intrinsics
  deriving Repr, DecidableEq

/-- What a step that fails returns. -/
def Build.failureCode : Build → Int
  | .inlineAssembly => rdrandFailure
  | .intrinsics => 0

/-- Every step returns `RDRAND_SUCCESS` or the code of a failed step. -/
def Device.BuiltWith (device : Device) (build : Build) : Prop :=
  ∀ position,
    (device position).rc = rdrandSuccess ∨
      (device position).rc = build.failureCode

/-- Every step returns `RDRAND_SUCCESS` or `RDRAND_FAILURE`. -/
def Device.Documented (device : Device) : Prop :=
  device.BuiltWith .inlineAssembly

theorem Device.lateBy_documented (failures : Nat) :
    (Device.lateBy failures).Documented := by
  intro position
  by_cases late : position < failures
  · exact .inr (by simp [lateBy, late, broken, Build.failureCode])
  · exact .inl (by simp [lateBy, late, counting])

/-- So many steps from a position on fail. -/
def Device.FailedRun
    (device : Device)
    (position length : Nat) : Prop :=
  ∀ earlier < length, ¬ device.Delivers (position + earlier)

/-- The steps a retry loop may take: the limit, but at least one. -/
def maxTries (retryLimit : Int) : Nat :=
  (max 1 (effectiveLimit retryLimit)).toNat

theorem furtherTries_effectiveLimit (retryLimit : Int) :
    furtherTries (effectiveLimit retryLimit) + 1 =
      maxTries retryLimit := by
  unfold furtherTries maxTries
  omega

theorem effectiveLimit_effectiveLimit (retryLimit : Int) :
    effectiveLimit (effectiveLimit retryLimit) =
      effectiveLimit retryLimit := by
  unfold effectiveLimit defaultRetryLimit
  split <;> simp_all

/--
A `do ... while (rc == tested && ++count < retry_limit)` loop: the outcome of
its last step and the position after it.
-/
def retryWhile
    (tested : Int)
    (device : Device) : Nat → Nat → StepOutcome × Nat
  | 0, position =>
      (device position, position + 1)
  | further + 1, position =>
      if (device position).rc = tested then
        retryWhile tested device further (position + 1)
      else
        (device position, position + 1)

/-- What a function that gets a single value returns and stores into `*dest`. -/
structure Retried (width : Nat) where
  rc : Int
  stored : Option (BitVec width)
  position : Nat
  deriving Repr, DecidableEq

/--
The functions that get a single value of some width, with the code that their
loop tests for.
-/
def getRetry
    (tested : Int)
    (width : Nat)
    (device : Device)
    (retryLimit : Int)
    (position : Nat) : Retried width :=
  let (outcome, next) :=
    retryWhile tested device
      (furtherTries (effectiveLimit retryLimit)) position
  if outcome.rc = rdrandSuccess then
    { rc := rdrandSuccess
      stored := some (outcome.value.setWidth width)
      position := next }
  else
    { rc := rdrandFailure, stored := none, position := next }

/-- `rdrand_get_uint16_retry`, whose loop tests for 0. -/
def rdrandGetUint16Retry :
    Device → Int → Nat → Retried 16 :=
  getRetry 0 16

/-- `rdrand_get_uint32_retry`. -/
def rdrandGetUint32Retry :
    Device → Int → Nat → Retried 32 :=
  getRetry rdrandFailure 32

/-- A single acquisition as a function that gets a 64-bit value. -/
def Acquisition.retried (acquired : Acquisition) : Retried 64 where
  rc := acquired.rc
  stored := acquired.value
  position := acquired.position

section Loop

variable {device : Device}

/-- A retry loop reads up to its last attempt. -/
theorem retryWhile_eq
    (tested : Int)
    (device : Device)
    (further position : Nat) :
    retryWhile tested device further position =
      (device
          (BoundedRetry.lastAttempt (fun outcome => outcome.rc = tested)
            device further position),
        BoundedRetry.lastAttempt (fun outcome => outcome.rc = tested)
            device further position +
          1) := by
  induction further generalizing position with
  | zero =>
      rfl
  | succ further inductionHypothesis =>
      unfold retryWhile BoundedRetry.lastAttempt
      split
      · exact inductionHypothesis (position + 1)
      · rfl

/-- The loops of the array functions retry on `RDRAND_FAILURE`. -/
theorem retryStep_eq_retryWhile
    (device : Device)
    (further position : Nat) :
    retryStep device further position =
      retryWhile rdrandFailure device further position := by
  induction further generalizing position with
  | zero =>
      rfl
  | succ further inductionHypothesis =>
      unfold retryStep retryWhile
      rw [inductionHypothesis]

/-- Some step before a bound delivers first, or none does. -/
theorem Device.first_delivery
    (device : Device)
    (position bound : Nat) :
    (∃ waited < bound,
        device.FailedRun position waited ∧
          device.Delivers (position + waited)) ∨
      device.FailedRun position bound := by
  induction bound with
  | zero =>
      exact .inr fun earlier before =>
        absurd before (Nat.not_lt_zero earlier)
  | succ bound inductionHypothesis =>
      rcases inductionHypothesis with ⟨waited, before, first⟩ | none
      · exact .inl ⟨waited, Nat.lt_succ_of_lt before, first⟩
      · by_cases delivers : device.Delivers (position + bound)
        · exact .inl ⟨bound, Nat.lt_succ_self bound, none, delivers⟩
        · right
          intro earlier before
          rcases Nat.eq_or_lt_of_le (Nat.le_of_lt_succ before) with
            rfl | less
          · exact delivers
          · exact none earlier less

/--
A loop that tests for the code of failed steps ends with the first step that
delivers, or with the last of its tries.
-/
theorem retryWhile_cases
    {tested : Int}
    (codes :
      ∀ position,
        (device position).rc = rdrandSuccess ∨
          (device position).rc = tested)
    (isFailure : tested ≠ rdrandSuccess)
    (further position : Nat) :
    (∃ waited ≤ further,
        device.FailedRun position waited ∧
          device.Delivers (position + waited) ∧
          retryWhile tested device further position =
            (device (position + waited), position + waited + 1)) ∨
      device.FailedRun position (further + 1) ∧
        retryWhile tested device further position =
          (device (position + further), position + further + 1) := by
  rw [retryWhile_eq]
  rcases device.first_delivery position (further + 1) with
    ⟨waited, within, failed, delivers⟩ | failed
  · have enough : ¬ (device (position + waited)).rc = tested := by
      intro same
      exact isFailure (same.symm.trans delivers)
    have last :
        BoundedRetry.lastAttempt (fun outcome => outcome.rc = tested)
            device further position =
          position + waited :=
      BoundedRetry.lastAttempt_first (Nat.le_of_lt_succ within)
        (fun earlier before =>
          (codes (position + earlier)).resolve_left
            (failed earlier before))
        enough
    rw [last]
    exact
      .inl
        ⟨waited, Nat.le_of_lt_succ within, failed, delivers, rfl⟩
  · have last :
        BoundedRetry.lastAttempt (fun outcome => outcome.rc = tested)
            device further position =
          position + further :=
      BoundedRetry.lastAttempt_all fun earlier before =>
        (codes (position + earlier)).resolve_left
          (failed earlier (Nat.lt_succ_of_le before))
    rw [last]
    exact .inr ⟨failed, rfl⟩

/-- A loop whose test never holds takes one step. -/
theorem retryWhile_once
    {tested : Int}
    {position : Nat}
    (untested : (device position).rc ≠ tested)
    (further : Nat) :
    retryWhile tested device further position =
      (device position, position + 1) := by
  have first :
      BoundedRetry.lastAttempt (fun outcome => outcome.rc = tested)
          device further position =
        position + 0 :=
    BoundedRetry.lastAttempt_first (Nat.zero_le further)
      (fun earlier before => absurd before (Nat.not_lt_zero earlier))
      untested
  rw [retryWhile_eq, first, Nat.add_zero]

end Loop

/--
The retry law: the value of the first successful step among the tries is
stored and no later step is taken; without one, all tries are taken, and
nothing is stored.
-/
structure RetryLaw
    (device : Device)
    (tries position : Nat)
    {width : Nat}
    (retried : Retried width) : Prop where
  success :
    retried.rc = rdrandSuccess ↔
      ∃ waited < tries, device.Delivers (position + waited)
  first :
    ∀ waited < tries,
      device.FailedRun position waited →
      device.Delivers (position + waited) →
      retried.stored =
          some ((device (position + waited)).value.setWidth width) ∧
        retried.position = position + waited + 1
  exhausted :
    device.FailedRun position tries →
    retried.rc = rdrandFailure ∧
      retried.stored = none ∧
      retried.position = position + tries

section Law

variable {device : Device} {tested : Int} {retryLimit : Int} {position : Nat}

/-- A function that tests for the code of failed steps obeys the retry law. -/
theorem getRetry_law
    (codes :
      ∀ current,
        (device current).rc = rdrandSuccess ∨
          (device current).rc = tested)
    (isFailure : tested ≠ rdrandSuccess)
    (width : Nat) :
    RetryLaw device (maxTries retryLimit) position
      (getRetry tested width device retryLimit position) := by
  have tries := furtherTries_effectiveLimit retryLimit
  rcases retryWhile_cases codes isFailure
      (furtherTries (effectiveLimit retryLimit)) position with
    ⟨waited, within, failed, delivers, run⟩ | ⟨failed, run⟩
  · have success : (device (position + waited)).rc = rdrandSuccess :=
      delivers
    simp only [getRetry, run, success, if_true]
    refine ⟨?_, ?_, ?_⟩
    · exact ⟨fun _ => ⟨waited, by omega, delivers⟩, fun _ => rfl⟩
    · intro other _ otherFailed otherDelivers
      have same : other = waited := by
        apply Nat.le_antisymm
        · exact Nat.not_lt.mp fun later => otherFailed waited later delivers
        · exact Nat.not_lt.mp fun sooner =>
            failed other sooner otherDelivers
      rw [same]
      exact ⟨rfl, rfl⟩
    · intro none
      exact absurd delivers (none waited (by omega))
  · have short :
        ¬ (device
          (position +
            furtherTries (effectiveLimit retryLimit))).rc =
              rdrandSuccess :=
      failed _ (Nat.lt_succ_self _)
    rw [tries] at failed
    simp only [getRetry, run, if_neg short]
    refine ⟨?_, ?_, ?_⟩
    · constructor
      · intro impossible
        cases impossible
      · rintro ⟨waited, within, delivers⟩
        exact absurd delivers (failed waited within)
    · intro waited within _ delivers
      exact absurd delivers (failed waited within)
    · intro _
      refine ⟨rfl, rfl, ?_⟩
      simp only
      omega

/-- Where the first step delivers, every copy of the loop obeys the law. -/
theorem getRetry_law_of_delivers
    (isFailure : tested ≠ rdrandSuccess)
    (delivers : device.Delivers position)
    (width : Nat) :
    RetryLaw device (maxTries retryLimit) position
      (getRetry tested width device retryLimit position) := by
  have success : (device position).rc = rdrandSuccess := delivers
  have never : (device position).rc ≠ tested := by
    rw [success]
    exact isFailure.symm
  have tries := furtherTries_effectiveLimit retryLimit
  have run :=
    retryWhile_once never (furtherTries (effectiveLimit retryLimit))
  simp only [getRetry, run, success, if_true]
  refine ⟨?_, ?_, ?_⟩
  · exact ⟨fun _ => ⟨0, by omega, delivers⟩, fun _ => rfl⟩
  · intro waited _ failed _
    rcases Nat.eq_zero_or_pos waited with rfl | later
    · exact ⟨rfl, rfl⟩
    · exact absurd delivers (failed 0 later)
  · intro none
    exact absurd delivers (none 0 (by omega))

/-- A single failed step meets the law only if it is all that is allowed. -/
theorem getRetry_law_iff_of_single
    (fails : ¬ device.Delivers position)
    (never : (device position).rc ≠ tested)
    (width : Nat) :
    RetryLaw device (maxTries retryLimit) position
        (getRetry tested width device retryLimit position) ↔
      maxTries retryLimit = 1 := by
  have short : ¬ (device position).rc = rdrandSuccess := fails
  have run :=
    retryWhile_once never (furtherTries (effectiveLimit retryLimit))
  simp only [getRetry, run, if_neg short]
  constructor
  · intro law
    rcases device.first_delivery position (maxTries retryLimit) with
      ⟨waited, within, _, late⟩ | none
    · have failure := law.success.mpr ⟨waited, within, late⟩
      cases failure
    · have moved := (law.exhausted none).2.2
      simp only at moved
      omega
  · intro single
    have failsAll : device.FailedRun position 1 := by
      intro waited within
      rw [Nat.lt_one_iff.mp within]
      exact fails
    rw [single]
    refine ⟨?_, ?_, fun _ => ⟨rfl, rfl, rfl⟩⟩
    · constructor
      · intro impossible
        cases impossible
      · rintro ⟨waited, within, late⟩
        exact absurd late (failsAll waited within)
    · intro waited within _ late
      exact absurd late (failsAll waited within)

/-- `rdrand_get_uint64_retry` is the 64-bit copy of the loop. -/
theorem rdrandGetUint64Retry_retried
    (device : Device)
    (retryLimit : Int)
    (position : Nat) :
    (rdrandGetUint64Retry device retryLimit position).retried =
      getRetry rdrandFailure 64 device retryLimit position := by
  unfold rdrandGetUint64Retry getRetry
  simp only [retryStep_eq_retryWhile]
  split
  · simp [Acquisition.retried]
  · rfl

/--
A copy of the loop obeys the retry law where it tests for the code that the
build gives a failed step, where a single try is allowed, and where the first
step delivers; nowhere else.
-/
theorem getRetry_law_iff
    {build : Build}
    (steps : device.BuiltWith build)
    (isFailure : tested ≠ rdrandSuccess)
    (retryLimit : Int)
    (position width : Nat) :
    RetryLaw device (maxTries retryLimit) position
        (getRetry tested width device retryLimit position) ↔
      tested = build.failureCode ∨
        maxTries retryLimit = 1 ∨ device.Delivers position := by
  by_cases same : tested = build.failureCode
  · subst same
    exact
      ⟨fun _ => .inl rfl, fun _ => getRetry_law steps isFailure width⟩
  · rw [or_iff_right same]
    by_cases delivers : device.Delivers position
    · exact
        ⟨fun _ => .inr delivers,
          fun _ => getRetry_law_of_delivers isFailure delivers width⟩
    · have otherCode : (device position).rc ≠ tested := by
        rw [(steps position).resolve_left delivers]
        exact fun code => same code.symm
      rw [or_iff_left delivers]
      exact getRetry_law_iff_of_single delivers otherCode width

end Law

/--
Each of the three functions obeys the retry law in the build whose steps fail
with the code it tests for.  In the other build it does so only where a single
try is allowed or the first step delivers.
-/
theorem singleValues_law_iff
    (build : Build)
    {device : Device}
    (steps : device.BuiltWith build)
    (retryLimit : Int)
    (position : Nat) :
    (RetryLaw device (maxTries retryLimit) position
        (rdrandGetUint16Retry device retryLimit position) ↔
      build = .intrinsics ∨
        maxTries retryLimit = 1 ∨ device.Delivers position) ∧
    (RetryLaw device (maxTries retryLimit) position
        (rdrandGetUint32Retry device retryLimit position) ↔
      build = .inlineAssembly ∨
        maxTries retryLimit = 1 ∨ device.Delivers position) ∧
    (RetryLaw device (maxTries retryLimit) position
        (rdrandGetUint64Retry device retryLimit position).retried ↔
      build = .inlineAssembly ∨
        maxTries retryLimit = 1 ∨ device.Delivers position) := by
  have zero :=
    getRetry_law_iff steps (show (0 : Int) ≠ rdrandSuccess by decide)
      retryLimit position
  have failure :=
    getRetry_law_iff steps
      (show rdrandFailure ≠ rdrandSuccess by decide)
      retryLimit position
  have zeroCode : 0 = build.failureCode ↔ build = .intrinsics := by
    cases build <;> decide
  have failureCode :
      rdrandFailure = build.failureCode ↔ build = .inlineAssembly := by
    cases build <;> decide
  rw [rdrandGetUint64Retry_retried]
  refine ⟨?_, ?_, ?_⟩
  · exact (zero 16).trans (or_congr_left zeroCode)
  · exact (failure 32).trans (or_congr_left failureCode)
  · exact (failure 64).trans (or_congr_left failureCode)

/-- The build with inline assembly, on a device that fails once. -/
theorem singleValues_law_iff_lateBy :
    (RetryLaw (Device.lateBy 1) (maxTries 10) 0
        (rdrandGetUint16Retry (.lateBy 1) 10 0) ↔
      Build.inlineAssembly = .intrinsics ∨
        maxTries 10 = 1 ∨ (Device.lateBy 1).Delivers 0) ∧
    (RetryLaw (Device.lateBy 1) (maxTries 10) 0
        (rdrandGetUint32Retry (.lateBy 1) 10 0) ↔
      Build.inlineAssembly = .inlineAssembly ∨
        maxTries 10 = 1 ∨ (Device.lateBy 1).Delivers 0) ∧
    (RetryLaw (Device.lateBy 1) (maxTries 10) 0
        (rdrandGetUint64Retry (.lateBy 1) 10 0).retried ↔
      Build.inlineAssembly = .inlineAssembly ∨
        maxTries 10 = 1 ∨ (Device.lateBy 1).Delivers 0) :=
  singleValues_law_iff .inlineAssembly
    (Device.lateBy_documented 1) 10 0

/-- A device of the build with intrinsics that fails once. -/
def Device.lateIntrinsic : Device :=
  fun position =>
    if position = 0 then
      { rc := 0, value := 0 }
    else
      counting position

/--
Ten tries are allowed and the second step delivers, but the 16-bit function
gives up after one step with inline assembly, and the others with intrinsics.
-/
theorem singleValues_give_up :
    (Device.lateBy 1).BuiltWith .inlineAssembly ∧
      ¬ RetryLaw (Device.lateBy 1) (maxTries 10) 0
        (rdrandGetUint16Retry (.lateBy 1) 10 0) ∧
      Device.lateIntrinsic.BuiltWith .intrinsics ∧
      ¬ RetryLaw Device.lateIntrinsic (maxTries 10) 0
        (rdrandGetUint32Retry .lateIntrinsic 10 0) ∧
      ¬ RetryLaw Device.lateIntrinsic (maxTries 10) 0
        (rdrandGetUint64Retry .lateIntrinsic 10 0).retried := by
  have intrinsics : Device.lateIntrinsic.BuiltWith .intrinsics := by
    intro position
    by_cases first : position = 0
    · exact .inr (by rw [first]; rfl)
    · left
      simp [Device.lateIntrinsic, first, Device.counting]
  refine
    ⟨Device.lateBy_documented 1, ?_, intrinsics, ?_, ?_⟩
  · intro law
    have failure := law.success.mpr ⟨1, by decide, rfl⟩
    revert failure
    decide
  · intro law
    have failure := law.success.mpr ⟨1, by decide, rfl⟩
    revert failure
    decide
  · intro law
    have failure := law.success.mpr ⟨1, by decide, rfl⟩
    revert failure
    decide

end RdRand
