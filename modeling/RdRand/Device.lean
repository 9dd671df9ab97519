import Mathlib.Tactic.Ring

namespace RdRand

/-!
# The RdRand instruction and its retry loops

A device is the sequence of outcomes of the `rdrandXX_step` calls a program
makes, in the order of the calls.  A library function starts at a position of
that sequence and reports the position it has advanced to, so the step that
produced a value is identified by its position.

Both builds of the library are covered: a step returns `rdrandSuccess`, or a
failure code that is `rdrandFailure` for the inline assembly and 0 for the
compiler intrinsics.
-/

/-- `uint8_t`. -/
abbrev Byte := BitVec 8

/-- `uint64_t`. -/
abbrev Word := BitVec 64

/-- The values of `unsigned int` are below this bound. -/
def uintModulus : Nat := 2 ^ 32

/-- The values of `size_t` are below this bound. -/
def sizeModulus : Nat := 2 ^ 64

/-- `RDRAND_SUCCESS`. -/
def rdrandSuccess : Int := 1

/-- `RDRAND_FAILURE`. -/
def rdrandFailure : Int := -1

/-- `RETRY_LIMIT`. -/
def defaultRetryLimit : Int := 10

/-- The return code of one step and the value it leaves in its operand. -/
structure StepOutcome where
  rc : Int
  value : Word
  deriving Repr, DecidableEq

/-- The outcomes of all steps, by position. -/
abbrev Device := Nat → StepOutcome

namespace Device

/-- The step at a position delivered a random value. -/
def Delivers (device : Device) (position : Nat) : Prop :=
  (device position).rc = rdrandSuccess

/-- Every step delivers a value. -/
def NeverFails (device : Device) : Prop :=
  ∀ position, device.Delivers position

/-- A device whose every step delivers its own number. -/
def counting : Device :=
  fun position => { rc := rdrandSuccess, value := position }

theorem counting_neverFails : counting.NeverFails :=
  fun _ => rfl

/-- A device whose every step fails. -/
def broken : Device :=
  fun _ => { rc := rdrandFailure, value := 0 }

theorem broken_not_delivers (position : Nat) :
    ¬ broken.Delivers position := by
  simp [Delivers, broken, rdrandFailure, rdrandSuccess]

/-- A device of which every third step fails. -/
def stumbling : Device :=
  fun position =>
    if position % 3 = 0 then broken position else counting position

/-- A device that fails so many times before it delivers. -/
def lateBy (failures : Nat) : Device :=
  fun position =>
    if position < failures then
      broken position
    else
      counting position

end Device

/-- A negative retry limit stands for `RETRY_LIMIT`. -/
def effectiveLimit (retryLimit : Int) : Int :=
  if retryLimit < 0 then defaultRetryLimit else retryLimit

/--
The steps a `do ... while (rc == RDRAND_FAILURE && ++count < retry_limit)`
loop may take after its first one.
-/
def furtherTries (retryLimit : Int) : Nat :=
  (retryLimit - 1).toNat

/-- The retry loop: the outcome of its last step and the position after it. -/
def retryStep (device : Device) : Nat → Nat → StepOutcome × Nat
  | 0, position =>
      (device position, position + 1)
  | further + 1, position =>
      if (device position).rc = rdrandFailure then
        retryStep device further (position + 1)
      else
        (device position, position + 1)

/-- A retry loop takes at least one step. -/
theorem retryStep_advances
    (device : Device)
    (further position : Nat) :
    position < (retryStep device further position).2 := by
  induction further generalizing position with
  | zero =>
      exact Nat.lt_succ_self position
  | succ further inductionHypothesis =>
      unfold retryStep
      split
      · exact Nat.lt_trans (Nat.lt_succ_self position)
          (inductionHypothesis (position + 1))
      · exact Nat.lt_succ_self position

/-- The outcome of a retry loop is that of its last step. -/
theorem retryStep_last
    (device : Device)
    (further position : Nat) :
    (retryStep device further position).1 =
      device ((retryStep device further position).2 - 1) := by
  induction further generalizing position with
  | zero =>
      rfl
  | succ further inductionHypothesis =>
      unfold retryStep
      split
      · exact inductionHypothesis (position + 1)
      · rfl

/-- A first step that delivers ends the retry loop. -/
theorem retryStep_of_delivers
    {device : Device}
    {position : Nat}
    (delivers : device.Delivers position)
    (further : Nat) :
    retryStep device further position =
      (device position, position + 1) := by
  cases further with
  | zero =>
      rfl
  | succ further =>
      have notFailure : (device position).rc ≠ rdrandFailure := by
        rw [delivers]
        decide
      simp [retryStep, notFailure]

/-- What a single acquisition reports: a code, a value and the position after. -/
structure Acquisition where
  rc : Int
  value : Option Word
  position : Nat
  deriving Repr, DecidableEq

namespace Acquisition

/--
An acquisition is sound from a position when it advances and whatever value
it saves is that of its last step, which delivered.
-/
structure Sound
    (device : Device)
    (start : Nat)
    (acquired : Acquisition) : Prop where
  advances : start < acquired.position
  codes :
    acquired.rc = rdrandSuccess ↔ acquired.value.isSome
  fromDevice :
    ∀ {value},
      acquired.value = some value →
      device.Delivers (acquired.position - 1) ∧
        value = (device (acquired.position - 1)).value

/-- A sound acquisition may be taken to have begun at an earlier position. -/
theorem Sound.since
    {device : Device}
    {start earlier : Nat}
    {acquired : Acquisition}
    (sound : acquired.Sound device start)
    (le : earlier ≤ start) :
    acquired.Sound device earlier where
  advances := Nat.lt_of_le_of_lt le sound.advances
  codes := sound.codes
  fromDevice := sound.fromDevice

end Acquisition

/-- The retry loop inside the array functions, saving `x_64` on success. -/
def acquireInline
    (device : Device)
    (retryLimit : Int)
    (position : Nat) : Acquisition :=
  let (outcome, next) :=
    retryStep device (furtherTries retryLimit) position
  { rc := outcome.rc
    value :=
      if outcome.rc = rdrandSuccess then some outcome.value else none
    position := next }

/-- `rdrand_get_uint64_retry`: `value` is what it stores into `*dest`. -/
def rdrandGetUint64Retry
    (device : Device)
    (retryLimit : Int)
    (position : Nat) : Acquisition :=
  let (outcome, next) :=
    retryStep device (furtherTries (effectiveLimit retryLimit)) position
  if outcome.rc = rdrandSuccess then
    { rc := rdrandSuccess, value := some outcome.value, position := next }
  else
    { rc := rdrandFailure, value := none, position := next }

/-- The inline retry loop is a sound acquisition. -/
theorem acquireInline_sound
    (device : Device)
    (retryLimit : Int)
    (position : Nat) :
    (acquireInline device retryLimit position).Sound device position where
  advances :=
    retryStep_advances device (furtherTries retryLimit) position
  codes := by
    simp only [acquireInline]
    split <;> simp_all
  fromDevice := by
    intro value saved
    have last :=
      retryStep_last device (furtherTries retryLimit) position
    simp only [acquireInline] at saved ⊢
    split at saved
    · next delivers =>
        cases saved
        exact ⟨by rw [Device.Delivers, ← last]; exact delivers,
          by rw [← last]⟩
    · cases saved

/-- `rdrand_get_uint64_retry` is a sound acquisition. -/
theorem rdrandGetUint64Retry_sound
    (device : Device)
    (retryLimit : Int)
    (position : Nat) :
    (rdrandGetUint64Retry device retryLimit position).Sound
      device position := by
  have advances :=
    retryStep_advances device
      (furtherTries (effectiveLimit retryLimit)) position
  have last :=
    retryStep_last device
      (furtherTries (effectiveLimit retryLimit)) position
  simp only [rdrandGetUint64Retry]
  split
  · next delivers =>
      refine ⟨advances, by simp, ?_⟩
      intro value saved
      cases saved
      exact ⟨by rw [Device.Delivers, ← last]; exact delivers,
        by rw [← last]⟩
  · refine ⟨advances, by simp [rdrandFailure, rdrandSuccess], ?_⟩
    intro value saved
    cases saved

/-- On a step that delivers, the inline loop saves its value at once. -/
theorem acquireInline_of_delivers
    {device : Device}
    {position : Nat}
    (delivers : device.Delivers position)
    (retryLimit : Int) :
    acquireInline device retryLimit position =
      { rc := rdrandSuccess
        value := some (device position).value
        position := position + 1 } := by
  have success : (device position).rc = rdrandSuccess := delivers
  simp [acquireInline, retryStep_of_delivers delivers, success]

/-- On a step that delivers, the single-value function saves its value at once. -/
theorem rdrandGetUint64Retry_of_delivers
    {device : Device}
    {position : Nat}
    (delivers : device.Delivers position)
    (retryLimit : Int) :
    rdrandGetUint64Retry device retryLimit position =
      { rc := rdrandSuccess
        value := some (device position).value
        position := position + 1 } := by
  have success : (device position).rc = rdrandSuccess := delivers
  simp [rdrandGetUint64Retry, retryStep_of_delivers delivers, success]

end RdRand
