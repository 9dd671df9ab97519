import RdRand.KeyChanges

namespace RdRand

/-!
# What the encrypting functions keep

After the keys are set, any sequence of calls of `rdrandGetBytesAesCtr` and
`rdrandEncBuffer` keeps `AES_CFG` in order, whatever the device and OpenSSL
do: before, between and inside the calls.
-/

section Kept

variable
  (ssl : OpenSsl)
  (amount keyLength : Nat)
  (keysType : KeysType)
  (start : AesState)

/-- What holds of the configuration some steps after the keys were set. -/
structure CfgKept (steps : List CountingCall) (later : AesState) : Prop where
  amountPositive : 0 < later.cfg.keys.amount
  sameAmount : later.cfg.keys.amount = amount
  sameLength : later.cfg.keys.keyLength = keyLength
  sameType : later.cfg.keysType = keysType
  index : later.cfg.keys.index < later.cfg.keys.amount
  keyCurrent : later.cfg.keys.keyCurrent = some later.cfg.keys.index
  nonceCurrent : later.cfg.keys.nonceCurrent = some later.cfg.keys.index
  keySlots : later.cfg.keys.keys.slots.length = later.cfg.keys.amount
  nonceSlots : later.cfg.keys.nonces.slots.length = later.cfg.keys.amount
  nextCounter : later.cfg.keys.nextCounter ≤ maxCounter
  noWrap :
    ∀ num,
      ¬KeyChangeDue num later →
      (counter ssl num later).state.cfg.keys.nextCounter + num =
        later.cfg.keys.nextCounter
  generated :
    keysType = .keysGenerated → amount = 1 ∧ later.cfg.keys.index = 0
  rotated :
    keysType = .keysGiven →
    later.cfg.keys.index = keyChanges ssl steps start % amount

/--
What a step does to given keys: one that changes the key turns to the next
slot and rewrites it, and any other one leaves the slots alone.
-/
structure StepRotates (before : AesState) (step : CountingCall) : Prop where
  changed :
    step.ChangesKey before →
    KeyChanged ssl amount before (step.perform ssl before)
  kept :
    ¬step.ChangesKey before →
    SlotsKept before (step.perform ssl before)

/--
Slot `j` of the keys and nonces changes only at the key changes that select
it, between two states of a run: change number `m` selects `m % amount`.
-/
def ChangesOnlySelected (earlier later : List CountingCall) : Prop :=
  ∀ slot,
    (∀ change,
      keyChanges ssl earlier start < change →
      change ≤ keyChanges ssl (earlier ++ later) start →
      change % amount ≠ slot) →
    (runCounting ssl (earlier ++ later) start).cfg.keys.keys.slot slot =
        (runCounting ssl earlier start).cfg.keys.keys.slot slot ∧
      (runCounting ssl (earlier ++ later) start).cfg.keys.nonces.slot
          slot =
        (runCounting ssl earlier start).cfg.keys.nonces.slot slot

end Kept

section Calls

variable
  {ssl : OpenSsl}
  {amount keyLength : Nat}
  {keysType : KeysType}
  {start : AesState}

variable (ssl) in
/-- A charge that changes no key subtracts without wrapping. -/
theorem counter_charges
    {state : AesState}
    (valid : state.Valid amount keyLength keysType)
    {num : Nat}
    (notDue : ¬KeyChangeDue num state) :
    (counter ssl num state).state.cfg.keys.nextCounter + num =
      state.cfg.keys.nextCounter := by
  have covered : num ≤ state.cfg.keys.nextCounter := by
    unfold KeyChangeDue at notDue
    omega
  unfold counter
  rw [if_neg notDue]
  change
    (state.cfg.keys.nextCounter + (uintModulus - num)) % uintModulus +
      num = _
  rw [charge_eq valid.keys.nextCounter covered]
  omega

/-- Every sequence of steps keeps the configuration in order. -/
theorem JustSet.kept
    (set : JustSet ssl amount keyLength keysType start)
    (steps : List CountingCall) :
    CfgKept ssl amount keyLength keysType start steps
      (runCounting ssl steps start) := by
  obtain ⟨startValid, startIndex⟩ := set.valid
  have valid := runCounting_valid ssl startValid steps
  have sameAmount := valid.keys.sameAmount
  exact
    { amountPositive := sameAmount ▸ valid.keys.amountPositive
      sameAmount := sameAmount
      sameLength := valid.keys.sameLength
      sameType := valid.sameType
      index := sameAmount.symm ▸ valid.keys.index
      keyCurrent := valid.keys.keyCurrent
      nonceCurrent := valid.keys.nonceCurrent
      keySlots := sameAmount.symm ▸ valid.keys.keySlots
      nonceSlots := sameAmount.symm ▸ valid.keys.nonceSlots
      nextCounter := valid.keys.nextCounter
      noWrap := fun _ notDue => counter_charges ssl valid notDue
      generated := fun generated =>
        ⟨valid.keys.generated generated,
          valid.keys.index_zero generated⟩
      rotated := by
        rintro rfl
        rw [runCounting_index startValid, startIndex, Nat.zero_add] }

/-- A slot changes only at the key changes that select it. -/
theorem JustSet.changesOnlySelected
    (set : JustSet ssl amount keyLength .keysGiven start)
    (earlier later : List CountingCall) :
    ChangesOnlySelected ssl amount start earlier later := by
  intro slot unselected
  have valid := runCounting_valid ssl set.valid.1 earlier
  rw [keyChanges_append] at unselected
  rw [runCounting_append]
  refine runCounting_slots valid later ?_
  intro change positive bounded
  rw [(set.kept earlier).rotated rfl, Nat.mod_add_mod]
  exact unselected _ (by omega) (by omega)

/--
After the keys are set, every sequence of encrypting calls is one of charges
and encryptions, and every such sequence keeps `AES_CFG` in order.
-/
theorem calls_keep_aesCfg
    (device : Device)
    (buffer : StackBuffer)
    (set : JustSet ssl amount keyLength keysType start)
    (calls : List AesCall)
    (position : Nat) :
    (runCalls ssl device buffer calls
        { position := position, state := start }).state =
        runCounting ssl
          (runSteps ssl device buffer calls
            { position := position, state := start })
          start ∧
      ∀ steps,
        CfgKept ssl amount keyLength keysType start steps
            (runCounting ssl steps start) ∧
          (keysType = .keysGiven →
            (∀ step,
              StepRotates ssl amount (runCounting ssl steps start)
                step) ∧
              ∀ later,
                ChangesOnlySelected ssl amount start steps later) := by
  refine ⟨runCalls_steps ssl device buffer calls _, ?_⟩
  intro steps
  refine ⟨set.kept steps, ?_⟩
  rintro rfl
  have valid := runCounting_valid ssl set.valid.1 steps
  exact
    ⟨fun step => ⟨step.keyChanged ssl valid, step.slotsKept ssl⟩,
      set.changesOnlySelected steps⟩

/--
Two given keys, and nine buffers of which every third one changes the key:
after three changes the second key is selected.
-/
theorem calls_keep_aesCfg_twoKeys :
    let calls : List AesCall :=
      List.replicate 9 (.encBuffer (List.replicate 2048 7))
    let start : AesRun := { position := 0, state := twoKeys .sample }
    let steps := runSteps .sample .counting .zeroed calls start
    CfgKept .sample 2 16 .keysGiven (twoKeys .sample) steps
        (runCalls .sample .counting .zeroed calls start).state ∧
      keyChanges .sample steps (twoKeys .sample) = 3 ∧
      (runCalls .sample .counting .zeroed calls
        start).state.cfg.keys.index = 1 := by
  intro calls start steps
  obtain ⟨sameSteps, keeps⟩ :=
    calls_keep_aesCfg .counting .zeroed twoKeys_justSet calls 0
  have three : keyChanges .sample steps (twoKeys .sample) = 3 := by
    decide +kernel
  have kept := (keeps steps).1
  rw [← sameSteps] at kept
  refine ⟨kept, three, ?_⟩
  rw [kept.rotated rfl, three]

end Calls

end RdRand
