import RdRand.AesSetUp

namespace RdRand

/-!
# The key changes of a run

The encrypting functions charge the counter and encrypt payload, and do
nothing else.  A charge changes the key where it finds a change due.  How many
of the charges of a run do so is counted here from the states they find, and
not from what the change itself does or logs.
-/

/-- The step changes the key: a charge that finds a change due. -/
def CountingCall.ChangesKey (state : AesState) : CountingCall → Prop
  | .count num => KeyChangeDue num state
  | .encrypt _ => False

instance (state : AesState) :
    (call : CountingCall) → Decidable (call.ChangesKey state)
  | .count num => inferInstanceAs (Decidable (KeyChangeDue num state))
  | .encrypt _ => inferInstanceAs (Decidable False)

section Steps

variable (ssl : OpenSsl)

/-- The number of key changes in a sequence of steps. -/
def keyChanges : List CountingCall → AesState → Nat
  | [], _ => 0
  | call :: rest, state =>
      (if call.ChangesKey state then 1 else 0) +
        keyChanges rest (call.perform ssl state)

/-- The steps of the chunks and the tail of `rdrand_enc_buffer`. -/
def encBufferSteps : Nat → List Byte → AesState → List CountingCall
  | 0, source, _ =>
      if source.length ≠ 0 then [.encrypt source] else []
  | chunks + 1, source, state =>
      let counted := counter ssl maxBufferSize state
      let first := source.take maxBufferSize
      .count maxBufferSize ::
        if counted.success then
          let update := encryptPayload ssl first counted.state
          .encrypt first ::
            match update.output with
            | none => []
            | some _ =>
                encBufferSteps chunks (source.drop maxBufferSize)
                  update.state
        else
          []

/-- The steps of the chunks of `rdrand_get_bytes_aes_ctr`. -/
def ctrSteps
    (acquire : Nat → Nat → Acquired) :
    List Nat → Nat → AesState → List CountingCall
  | [], _, _ => []
  | size :: rest, position, state =>
      let counted := counter ssl size state
      let acquired := acquire size position
      .count size ::
        match acquired.bytes with
        | none => []
        | some bytes =>
            let update := encryptPayload ssl bytes counted.state
            .encrypt bytes ::
              match update.output with
              | none => []
              | some _ =>
                  ctrSteps acquire rest acquired.position update.state

section Calls

variable (device : Device) (buffer : StackBuffer)

/-- The steps of a call. -/
def callSteps (run : AesRun) : AesCall → List CountingCall
  | .getBytesAesCtr count retryLimit =>
      ctrSteps ssl (acquireBuffer device buffer retryLimit)
        (chunkSizes count) run.position run.state
  | .encBuffer source =>
      encBufferSteps ssl (source.length / maxBufferSize) source run.state

/-- The steps of a sequence of calls. -/
def runSteps : List AesCall → AesRun → List CountingCall
  | [], _ => []
  | call :: rest, run =>
      callSteps ssl device buffer run call ++
        runSteps rest (runCall ssl device buffer run call)

end Calls

/--
A change to the next given key: the slot after the selected one is selected,
the key and the nonce stored there are encrypted in place and taken into use,
and the other slots stay as they are.
-/
structure KeyChanged (amount : Nat) (before after : AesState) : Prop where
  index : after.cfg.keys.index = (before.cfg.keys.index + 1) % amount
  nextCounter : after.cfg.keys.nextCounter = maxCounter
  others :
    ∀ slot,
      slot ≠ after.cfg.keys.index →
      after.cfg.keys.keys.slot slot = before.cfg.keys.keys.slot slot ∧
        after.cfg.keys.nonces.slot slot =
          before.cfg.keys.nonces.slot slot
  rotated :
    ∀ key nonce,
      before.cfg.en.keyed = some (key, nonce) →
      ssl.encryptOk before.encryptCalls = true →
      ssl.encryptOk (before.encryptCalls + 1) = true →
      after.cfg.keys.keys.slot after.cfg.keys.index =
          CounterMode.apply (ssl.keystream key nonce)
            before.cfg.en.used
            (before.cfg.keys.keys.slot after.cfg.keys.index) ∧
        after.cfg.keys.nonces.slot after.cfg.keys.index =
          CounterMode.apply (ssl.keystream key nonce)
            (before.cfg.en.used + before.cfg.keys.keyLength)
            (before.cfg.keys.nonces.slot after.cfg.keys.index)
  keyed :
    ssl.initOk before.initCalls = true →
    after.cfg.en.keyed =
        some
          (after.cfg.keys.keys.slot after.cfg.keys.index,
            after.cfg.keys.nonces.slot after.cfg.keys.index) ∧
      after.cfg.en.used = 0

/-- Nothing happens to the selected slot, or to any other. -/
structure SlotsKept (before after : AesState) : Prop where
  index : after.cfg.keys.index = before.cfg.keys.index
  keys : after.cfg.keys.keys = before.cfg.keys.keys
  nonces : after.cfg.keys.nonces = before.cfg.keys.nonces

end Steps

section Runs

variable (ssl : OpenSsl)

@[simp] theorem runCounting_cons
    (call : CountingCall)
    (rest : List CountingCall)
    (state : AesState) :
    runCounting ssl (call :: rest) state =
      runCounting ssl rest (call.perform ssl state) :=
  rfl

theorem runCounting_append
    (earlier later : List CountingCall)
    (state : AesState) :
    runCounting ssl (earlier ++ later) state =
      runCounting ssl later (runCounting ssl earlier state) :=
  List.foldl_append

/-- The key changes of one sequence of steps, and of another one after it. -/
theorem keyChanges_append
    (earlier later : List CountingCall)
    (state : AesState) :
    keyChanges ssl (earlier ++ later) state =
      keyChanges ssl earlier state +
        keyChanges ssl later (runCounting ssl earlier state) := by
  induction earlier generalizing state with
  | nil =>
      exact (Nat.zero_add _).symm
  | cons call rest inductionHypothesis =>
      rw [List.cons_append, keyChanges, keyChanges, inductionHypothesis,
        Nat.add_assoc, runCounting_cons]

/-- `rdrand_enc_buffer` does its steps, and nothing else to the state. -/
theorem encBufferChunks_steps
    (chunks : Nat)
    (source : List Byte)
    (state : AesState) :
    (encBufferChunks ssl chunks source state).state =
      runCounting ssl (encBufferSteps ssl chunks source state) state := by
  induction chunks generalizing source state with
  | zero =>
      unfold encBufferChunks encBufferSteps encBufferTail
      split
      · simp only
        split
        · rfl
        · rfl
      · rfl
  | succ chunks inductionHypothesis =>
      unfold encBufferChunks encBufferSteps
      simp only [runCounting_cons, CountingCall.perform]
      split
      · simp only [runCounting_cons, CountingCall.perform]
        cases (encryptPayload ssl (source.take maxBufferSize)
            (counter ssl maxBufferSize state).state).output with
        | none =>
            rfl
        | some output =>
            exact inductionHypothesis _ _
      · rfl

/-- `rdrand_get_bytes_aes_ctr` does its steps, and nothing else. -/
theorem ctrChunks_steps
    (acquire : Nat → Nat → Acquired)
    (sizes : List Nat)
    (position : Nat)
    (state : AesState) :
    (ctrChunks ssl acquire sizes position state).state =
      runCounting ssl (ctrSteps ssl acquire sizes position state)
        state := by
  induction sizes generalizing position state with
  | nil =>
      rfl
  | cons size rest inductionHypothesis =>
      unfold ctrChunks ctrSteps
      simp only [runCounting_cons, CountingCall.perform]
      cases (acquire size position).bytes with
      | none =>
          rfl
      | some bytes =>
          simp only [runCounting_cons, CountingCall.perform]
          cases (encryptPayload ssl bytes
              (counter ssl size state).state).output with
          | none =>
              rfl
          | some output =>
              exact inductionHypothesis _ _

/-- A sequence of calls does its steps, and nothing else to the state. -/
theorem runCalls_steps
    (device : Device)
    (buffer : StackBuffer)
    (calls : List AesCall)
    (run : AesRun) :
    (runCalls ssl device buffer calls run).state =
      runCounting ssl (runSteps ssl device buffer calls run)
        run.state := by
  induction calls generalizing run with
  | nil =>
      rfl
  | cons call rest inductionHypothesis =>
      have first :
          (runCall ssl device buffer run call).state =
            runCounting ssl (callSteps ssl device buffer run call)
              run.state := by
        cases call with
        | getBytesAesCtr count retryLimit =>
            exact ctrChunks_steps ssl _ _ _ _
        | encBuffer source =>
            exact encBufferChunks_steps ssl _ _ _
      rw [runSteps, runCounting_append, ← first]
      exact inductionHypothesis _

end Runs

section Changes

variable
  {ssl : OpenSsl}
  {amount keyLength : Nat}
  {keysType : KeysType}
  {state : AesState}

/-- A charge that finds a change due changes the given key. -/
theorem counter_changed
    (valid : state.Valid amount keyLength .keysGiven)
    {num : Nat}
    (due : KeyChangeDue num state) :
    KeyChanged ssl amount state (counter ssl num state).state := by
  obtain ⟨next, selected⟩ := selectNext_valid valid
  obtain ⟨key, nonce, keyWhole, nonceWhole, rotates, _, keys⟩ :=
    keysChange_spec ssl valid
  have counted :
      (counter ssl num state).state =
        setCounter maxCounter (keysChange ssl state).state := by
    unfold counter
    rw [if_pos due, valid.sameType]
  have inKeys :
      (state.cfg.keys.index + 1) % amount <
        state.cfg.keys.keys.slots.length := by
    rw [valid.keys.keySlots]
    exact Nat.mod_lt _ valid.keys.amountPositive
  have inNonces :
      (state.cfg.keys.index + 1) % amount <
        state.cfg.keys.nonces.slots.length := by
    rw [valid.keys.nonceSlots]
    exact Nat.mod_lt _ valid.keys.amountPositive
  have newKey :=
    valid.keys.keyStrings.write_slot_self inKeys keyWhole
  have newNonce :=
    valid.keys.nonceStrings.write_slot_self inNonces nonceWhole
  rw [counted]
  refine ⟨?_, rfl, ?_, ?_, ?_⟩
  · simp only [setCounter, keys]
  · intro slot different
    simp only [setCounter, keys] at different ⊢
    exact
      ⟨KeyArray.write_slot_other _ different _,
        KeyArray.write_slot_other _ different _⟩
  · intro oldKey oldNonce keyed first second
    obtain ⟨keyRotated, nonceRotated⟩ :=
      rotates oldKey oldNonce keyed first second
    simp only [setCounter, keys, newKey, newNonce]
    rw [keyRotated, nonceRotated]
    simp only [selectNext, Keys.currentKey, Keys.currentNonce, next,
      and_self]
  · intro init
    have initOk :
        ssl.initOk
            (keysChangeRotation ssl (selectNext state)).state.initCalls =
          true := by
      rw [keysChangeRotation_initCalls]
      exact init
    obtain ⟨taken, fresh⟩ := keyToOpenssl_done ssl initOk
    have changed :
        (keyToOpenssl ssl
            (keysChangeRotation ssl (selectNext state)).state).state =
          (keysChange ssl state).state := by
      rw [keysChange_eq]
    rw [changed] at taken fresh
    rw [keys] at taken
    refine ⟨?_, fresh⟩
    simp only [setCounter, keys]
    exact taken

/-- A step that changes no key leaves the slots alone. -/
theorem CountingCall.slotsKept
    (ssl : OpenSsl)
    {call : CountingCall}
    (kept : ¬call.ChangesKey state) :
    SlotsKept state (call.perform ssl state) := by
  cases call with
  | count num =>
      have notDue : ¬KeyChangeDue num state := kept
      change SlotsKept state (counter ssl num state).state
      unfold counter
      rw [if_neg notDue]
      exact ⟨rfl, rfl, rfl⟩
  | encrypt input =>
      have same := encryptPayload_keys ssl input state
      exact
        ⟨congrArg Keys.index same, congrArg Keys.keys same,
          congrArg Keys.nonces same⟩

/-- A step that changes the key turns to the next given one. -/
theorem CountingCall.keyChanged
    (ssl : OpenSsl)
    (valid : state.Valid amount keyLength .keysGiven)
    {call : CountingCall}
    (changes : call.ChangesKey state) :
    KeyChanged ssl amount state (call.perform ssl state) := by
  cases call with
  | count num =>
      exact counter_changed valid changes
  | encrypt input =>
      exact changes.elim

/-- Each key change of a run moves the index on by one. -/
theorem runCounting_index
    (valid : state.Valid amount keyLength .keysGiven)
    (steps : List CountingCall) :
    (runCounting ssl steps state).cfg.keys.index =
      (state.cfg.keys.index + keyChanges ssl steps state) % amount := by
  induction steps generalizing state with
  | nil =>
      exact (Nat.mod_eq_of_lt valid.keys.index).symm
  | cons call rest inductionHypothesis =>
      have later := inductionHypothesis (call.perform_valid ssl valid)
      rw [runCounting_cons, later, keyChanges]
      by_cases changes : call.ChangesKey state
      · rw [if_pos changes, (call.keyChanged ssl valid changes).index,
          Nat.mod_add_mod, Nat.add_assoc]
      · rw [if_neg changes, (call.slotsKept ssl changes).index,
          Nat.zero_add]

/-- A slot that no key change of a run selects stays as it is. -/
theorem runCounting_slots
    (valid : state.Valid amount keyLength .keysGiven)
    (steps : List CountingCall)
    {slot : Nat}
    (unselected :
      ∀ change,
        1 ≤ change →
        change ≤ keyChanges ssl steps state →
        (state.cfg.keys.index + change) % amount ≠ slot) :
    (runCounting ssl steps state).cfg.keys.keys.slot slot =
        state.cfg.keys.keys.slot slot ∧
      (runCounting ssl steps state).cfg.keys.nonces.slot slot =
        state.cfg.keys.nonces.slot slot := by
  induction steps generalizing state with
  | nil =>
      exact ⟨rfl, rfl⟩
  | cons call rest inductionHypothesis =>
      have nextValid := call.perform_valid ssl valid
      rw [keyChanges] at unselected
      by_cases changes : call.ChangesKey state
      · rw [if_pos changes] at unselected
        have changed := call.keyChanged ssl valid changes
        have other : slot ≠ (call.perform ssl state).cfg.keys.index := by
          rw [changed.index]
          exact (unselected 1 (Nat.le_refl _) (Nat.le_add_right _ _)).symm
        obtain ⟨sameKey, sameNonce⟩ := changed.others slot other
        rw [← sameKey, ← sameNonce]
        refine inductionHypothesis nextValid ?_
        intro change positive bounded
        rw [changed.index, Nat.mod_add_mod, Nat.add_assoc]
        exact unselected (1 + change) (by omega) (by omega)
      · rw [if_neg changes] at unselected
        have kept := call.slotsKept ssl changes
        rw [← kept.keys, ← kept.nonces]
        refine inductionHypothesis nextValid ?_
        intro change positive bounded
        rw [kept.index]
        exact unselected change positive (by omega)

end Changes

end RdRand
