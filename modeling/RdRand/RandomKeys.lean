import RdRand.AesSetUp
import RdRand.Histories

namespace RdRand

/-!
# Random keys and failing draws

With random keys a key change draws a key, a nonce and a budget.  Any of the
three draws can fail.  `key_generate` stores the key before it draws the
nonce, and `counter` draws a new budget whether there is a new key or not, so
that a change that fails can leave its traces.
-/

open Histories

/-- The stored key and nonce are those the cipher was last keyed with. -/
def StoredKeyed (state : AesState) : Prop :=
  state.cfg.en.keyed =
    some (state.cfg.keys.keys.slot 0, state.cfg.keys.nonces.slot 0)

/-- What a key change that fails leaves as it was. -/
structure ChangeUndone (before after : AesState) : Prop where
  key : after.cfg.keys.keys.slot 0 = before.cfg.keys.keys.slot 0
  nonce : after.cfg.keys.nonces.slot 0 = before.cfg.keys.nonces.slot 0
  en : after.cfg.en = before.cfg.en
  nextCounter :
    after.cfg.keys.nextCounter = before.cfg.keys.nextCounter

section Law

variable (ssl : OpenSsl)

/--
What is expected of a step: a key change that fails leaves everything as it
was, and the stored key and nonce are in use afterwards.
-/
structure StepLaw (before : AesState) (call : CountingCall) : Prop where
  failed :
    ∀ num,
      call = .count num →
      KeyChangeDue num before →
      (keyGenerate ssl before).success = false →
      ChangeUndone before (call.perform ssl before)
  stored : StoredKeyed (call.perform ssl before)

/-- What is expected of random keys: in every state and of every step. -/
structure RandomKeysLaw
    (before : AesState)
    (calls : List CountingCall) : Prop where
  set : StoredKeyed (rdrandSetAesRandomKey ssl before).state
  steps :
    Each
      (fun earlier call =>
        StepLaw ssl
          (runCounting ssl earlier
            (rdrandSetAesRandomKey ssl before).state)
          call)
      calls

/-- Everything `rdrand_set_aes_random_key` asks for is granted. -/
structure SetUpGranted (before : AesState) : Prop where
  keys : ssl.mallocOk before.mallocCalls = true
  nonces : ssl.mallocOk (before.mallocCalls + 1) = true
  key : (ssl.randBytes before.randCalls defaultKeyLen).isSome = true
  nonce :
    (ssl.randBytes (before.randCalls + 1) defaultKeyLen).isSome = true
  init : ssl.initOk before.initCalls = true

/-- A draw of a budget fails, or yields the budget there is. -/
def KeepsBudget (call nextCounter : Nat) : Prop :=
  ∀ buf ∈ ssl.randBytes call 4,
    randomCounter (littleEndian buf) = nextCounter

/--
The draws of a key change agree: with no key, or with the old key and no
nonce, there is no new budget, and with both the cipher is keyed with them.
-/
def DrawsAgree (state : AesState) : Prop :=
  match ssl.randBytes state.randCalls state.cfg.keys.keyLength with
  | none =>
      KeepsBudget ssl (state.randCalls + 1) state.cfg.keys.nextCounter
  | some key =>
      match
        ssl.randBytes (state.randCalls + 1) state.cfg.keys.keyLength with
      | none =>
          key = state.cfg.keys.keys.slot 0 ∧
            KeepsBudget ssl (state.randCalls + 2)
              state.cfg.keys.nextCounter
      | some nonce =>
          ssl.initOk state.initCalls = true ∨
            key = state.cfg.keys.keys.slot 0 ∧
              nonce = state.cfg.keys.nonces.slot 0

/-- Where a step makes a key change due, its draws agree. -/
def StepAgrees (state : AesState) : CountingCall → Prop
  | .count num => KeyChangeDue num state → DrawsAgree ssl state
  | .encrypt _ => True

end Law

section Draws

variable
  {ssl : OpenSsl}
  {state : AesState}

/-- A keying that succeeds takes the current key and nonce. -/
theorem keyToOpenssl_stored
    (init : ssl.initOk state.initCalls = true)
    (keyCurrent : state.cfg.keys.keyCurrent = some 0)
    (nonceCurrent : state.cfg.keys.nonceCurrent = some 0) :
    StoredKeyed (keyToOpenssl ssl state).state := by
  simp [StoredKeyed, keyToOpenssl, init, CipherContext.key,
    Keys.currentKey, Keys.currentNonce, keyCurrent, nonceCurrent]

/-- A keying that fails leaves the cipher and the stored strings. -/
theorem keyToOpenssl_failed_stored
    (state : AesState)
    (init : ssl.initOk state.initCalls = false) :
    StoredKeyed (keyToOpenssl ssl state).state ↔ StoredKeyed state := by
  simp [StoredKeyed, keyToOpenssl, init]

/-- Drawing a budget changes nothing but the budget. -/
theorem keysRandomize_stored :
    StoredKeyed (keysRandomize ssl state).state ↔ StoredKeyed state := by
  unfold keysRandomize
  simp only
  split <;> exact Iff.rfl

/-- Drawing a budget undoes a change if all else is undone, and it stays. -/
theorem keysRandomize_undone_iff
    {before : AesState}
    (sameCounter :
      state.cfg.keys.nextCounter = before.cfg.keys.nextCounter) :
    ChangeUndone before (keysRandomize ssl state).state ↔
      ChangeUndone before state ∧
        KeepsBudget ssl state.randCalls before.cfg.keys.nextCounter := by
  unfold keysRandomize KeepsBudget randBytes
  cases ssl.randBytes state.randCalls 4 with
  | none =>
      constructor
      · intro undone
        exact ⟨{ undone with }, by rintro _ ⟨⟩⟩
      · rintro ⟨undone, _⟩
        exact { undone with }
  | some buf =>
      constructor
      · intro undone
        refine ⟨{ undone with nextCounter := sameCounter }, ?_⟩
        rintro _ ⟨⟩
        exact undone.nextCounter
      · rintro ⟨undone, kept⟩
        exact { undone with nextCounter := kept buf rfl }

theorem encryptPayload_keyed (input : List Byte) :
    (encryptPayload ssl input state).state.cfg.en.keyed =
      state.cfg.en.keyed := by
  unfold encryptPayload
  simp only
  split <;> simp

/-- `key_generate` without a key. -/
theorem keyGenerate_noKey
    (noKey :
      ssl.randBytes state.randCalls state.cfg.keys.keyLength = none) :
    keyGenerate ssl state =
      { success := false
        state := { state with randCalls := state.randCalls + 1 } } := by
  simp only [keyGenerate, randBytes, noKey]

/-- `key_generate` with a key and without a nonce. -/
theorem keyGenerate_noNonce
    {key : List Byte}
    (keyDrawn :
      ssl.randBytes state.randCalls state.cfg.keys.keyLength = some key)
    (noNonce :
      ssl.randBytes (state.randCalls + 1) state.cfg.keys.keyLength =
        none) :
    keyGenerate ssl state =
      { success := false
        state :=
          storeKey key { state with randCalls := state.randCalls + 2 } } := by
  simp only [keyGenerate, randBytes, keyDrawn, storeKey, noNonce]

/-- A key change with random keys. -/
theorem counter_generates
    {num : Nat}
    (due : KeyChangeDue num state)
    (generated : state.cfg.keysType = .keysGenerated) :
    (counter ssl num state).state =
      (keysRandomize ssl (keyGenerate ssl state).state).state := by
  unfold counter
  rw [if_pos due, generated]

end Draws

section Step

variable
  {ssl : OpenSsl}
  {state : AesState}
  (valid : state.Valid 1 defaultKeyLen .keysGenerated)
  (stored : StoredKeyed state)

include valid in
/-- What is expected of a key change, in terms of `key_generate`. -/
theorem stepLaw_due_iff
    {num : Nat}
    (due : KeyChangeDue num state) :
    StepLaw ssl state (.count num) ↔
      ((keyGenerate ssl state).success = false →
          ChangeUndone state
            (keysRandomize ssl (keyGenerate ssl state).state).state) ∧
        StoredKeyed (keyGenerate ssl state).state := by
  have changed :
      CountingCall.perform ssl state (.count num) =
        (keysRandomize ssl (keyGenerate ssl state).state).state :=
    counter_generates due valid.sameType
  rw [← keysRandomize_stored, ← changed]
  constructor
  · intro law
    exact ⟨law.failed num rfl due, law.stored⟩
  · rintro ⟨undone, stored⟩
    exact
      { failed := fun _ _ _ failed => undone failed
        stored := stored }

include valid stored in
/-- Without a key a change is undone exactly if the budget stays. -/
theorem stepLaw_noKey
    {num : Nat}
    (due : KeyChangeDue num state)
    (noKey :
      ssl.randBytes state.randCalls state.cfg.keys.keyLength = none) :
    StepLaw ssl state (.count num) ↔
      KeepsBudget ssl (state.randCalls + 1)
        state.cfg.keys.nextCounter := by
  have untouched :
      ChangeUndone state { state with randCalls := state.randCalls + 1 } :=
    ⟨rfl, rfl, rfl, rfl⟩
  rw [stepLaw_due_iff valid due, keyGenerate_noKey noKey,
    keysRandomize_undone_iff]
  · constructor
    · rintro ⟨undone, _⟩
      exact (undone rfl).2
    · intro kept
      exact ⟨fun _ => ⟨untouched, kept⟩, stored⟩
  · rfl

include valid stored in
/-- With a key and no nonce a change is undone if the key is the old one. -/
theorem stepLaw_noNonce
    {num : Nat}
    (due : KeyChangeDue num state)
    {key : List Byte}
    (keyDrawn :
      ssl.randBytes state.randCalls state.cfg.keys.keyLength = some key)
    (noNonce :
      ssl.randBytes (state.randCalls + 1) state.cfg.keys.keyLength =
        none) :
    StepLaw ssl state (.count num) ↔
      key = state.cfg.keys.keys.slot 0 ∧
        KeepsBudget ssl (state.randCalls + 2)
          state.cfg.keys.nextCounter := by
  have slot := (valid.write_key ssl rfl keyDrawn).1
  rw [stepLaw_due_iff valid due, keyGenerate_noNonce keyDrawn noNonce,
    keysRandomize_undone_iff]
  · constructor
    · rintro ⟨undone, _⟩
      obtain ⟨touched, kept⟩ := undone rfl
      exact ⟨slot.symm.trans touched.key, kept⟩
    · rintro ⟨oldKey, kept⟩
      have sameSlot := slot.trans oldKey
      refine ⟨fun _ => ⟨⟨sameSlot, rfl, rfl, rfl⟩, kept⟩, ?_⟩
      change state.cfg.en.keyed = some (_, _)
      rw [stored]
      exact congrArg some (Prod.ext sameSlot.symm rfl)
  · rfl

include valid stored in
/-- With both, the cipher is to be keyed, or they are the old ones. -/
theorem stepLaw_drawn
    {num : Nat}
    (due : KeyChangeDue num state)
    {key nonce : List Byte}
    (keyDrawn :
      ssl.randBytes state.randCalls state.cfg.keys.keyLength = some key)
    (nonceDrawn :
      ssl.randBytes (state.randCalls + 1) state.cfg.keys.keyLength =
        some nonce) :
    StepLaw ssl state (.count num) ↔
      ssl.initOk state.initCalls = true ∨
        key = state.cfg.keys.keys.slot 0 ∧
          nonce = state.cfg.keys.nonces.slot 0 := by
  obtain ⟨keyCurrent, nonceCurrent⟩ := valid.keys.current_zero rfl
  have onlyStored :
      StepLaw ssl state (.count num) ↔
        StoredKeyed (keyGenerate ssl state).state := by
    rw [stepLaw_due_iff valid due]
    refine ⟨And.right, fun storedAfter => ⟨?_, storedAfter⟩⟩
    intro failed
    rw [keyGenerate_drawn ssl keyDrawn nonceDrawn] at failed
    cases failed
  rw [onlyStored, keyGenerate_drawn ssl keyDrawn nonceDrawn]
  cases init : ssl.initOk state.initCalls with
  | true =>
      exact
        ⟨fun _ => .inl rfl,
          fun _ => keyToOpenssl_stored init keyCurrent nonceCurrent⟩
  | false =>
      -- the cipher keeps the old pair, and the new one is stored
      refine
        (keyToOpenssl_failed_stored
          (storeNonce nonce
            (storeKey key
              { state with randCalls := state.randCalls + 2 }))
          init).trans ?_
      change
        state.cfg.en.keyed =
            some
              ((state.cfg.keys.keys.write 0 key).slot 0,
                (state.cfg.keys.nonces.write 0 nonce).slot 0) ↔ _
      rw [(valid.write_key ssl rfl keyDrawn).1,
        (valid.write_nonce ssl rfl nonceDrawn).1, stored]
      simp [eq_comm]

include valid stored in
/-- A step is as expected exactly if its draws agree. -/
theorem stepLaw_iff (call : CountingCall) :
    StepLaw ssl state call ↔ StepAgrees ssl state call := by
  cases call with
  | encrypt input =>
      refine ⟨fun _ => trivial, fun _ => ⟨?_, ?_⟩⟩
      · intro _ isCount
        cases isCount
      · unfold StoredKeyed CountingCall.perform
        simp only [encryptPayload_keys, encryptPayload_keyed]
        exact stored
  | count num =>
      by_cases due : KeyChangeDue num state
      · have agrees :
            StepAgrees ssl state (.count num) ↔ DrawsAgree ssl state :=
          ⟨fun agree => agree due, fun agree _ => agree⟩
        rw [agrees]
        unfold DrawsAgree
        split
        · next noKey => exact stepLaw_noKey valid stored due noKey
        · next key keyDrawn =>
            split
            · next noNonce =>
                exact stepLaw_noNonce valid stored due keyDrawn noNonce
            · next nonce nonceDrawn =>
                exact stepLaw_drawn valid stored due keyDrawn nonceDrawn
      · refine ⟨fun _ isDue => absurd isDue due, fun _ => ⟨?_, ?_⟩⟩
        · intro _ same isDue _
          cases same
          exact absurd isDue due
        · unfold StoredKeyed CountingCall.perform counter
          simp only
          rw [if_neg due]
          exact stored

end Step

section Run

variable (ssl : OpenSsl)

/-- Allocating an only key succeeds exactly if both arrays are granted. -/
theorem keysAllocate_one_success_iff (state : AesState) :
    (keysAllocate ssl 1 defaultKeyLen state).success = true ↔
      ssl.mallocOk state.mallocCalls = true ∧
        ssl.mallocOk (state.mallocCalls + 1) = true := by
  have power : isPowerOfTwo defaultKeyLen = true := by
    decide
  cases first : ssl.mallocOk state.mallocCalls <;>
    cases second : ssl.mallocOk (state.mallocCalls + 1) <;>
    simp [keysAllocate, allocateArray, power, first, second,
      KeyArray.null]

/-- The cipher is keyed where nothing `key_generate` asks for fails. -/
theorem keyGenerate_keys_iff
    {state : AesState}
    (unkeyed : state.cfg.en.keyed = none) :
    (keyGenerate ssl state).state.cfg.en.keyed ≠ none ↔
      (ssl.randBytes state.randCalls
          state.cfg.keys.keyLength).isSome = true ∧
        (ssl.randBytes (state.randCalls + 1)
          state.cfg.keys.keyLength).isSome = true ∧
        ssl.initOk state.initCalls = true := by
  cases keyDrawn :
      ssl.randBytes state.randCalls state.cfg.keys.keyLength with
  | none =>
      simp [keyGenerate_noKey keyDrawn, unkeyed]
  | some key =>
      cases nonceDrawn :
          ssl.randBytes (state.randCalls + 1)
            state.cfg.keys.keyLength with
      | none =>
          simp [keyGenerate_noNonce keyDrawn nonceDrawn, storeKey,
            unkeyed]
      | some nonce =>
          rw [keyGenerate_drawn ssl keyDrawn nonceDrawn]
          cases init : ssl.initOk state.initCalls <;>
            simp [keyToOpenssl, storeNonce, storeKey, init, unkeyed,
              CipherContext.key]

/-- The set-up keys the cipher exactly if everything is granted. -/
theorem setUp_stored_iff (before : AesState) :
    StoredKeyed (rdrandSetAesRandomKey ssl before).state ↔
      SetUpGranted ssl before := by
  have allocated :=
    keysAllocate_one_success_iff ssl (resetKeys .keysGenerated 0 before)
  unfold rdrandSetAesRandomKey
  simp only
  split
  · next success =>
      obtain ⟨keys, nonces⟩ := allocated.mp success
      obtain ⟨_, fresh⟩ := keysAllocate_spec ssl success
      rw [fresh]
      constructor
      · intro stored
        obtain ⟨key, nonce, init⟩ :=
          (keyGenerate_keys_iff ssl rfl).mp
            (Option.ne_none_iff_exists'.mpr ⟨_, stored⟩)
        exact
          { keys := keys
            nonces := nonces
            key := key
            nonce := nonce
            init := init }
      · intro granted
        obtain ⟨key, keyDrawn⟩ :=
          Option.isSome_iff_exists.mp granted.key
        obtain ⟨nonce, nonceDrawn⟩ :=
          Option.isSome_iff_exists.mp granted.nonce
        rw [keyGenerate_drawn ssl keyDrawn nonceDrawn]
        exact keyToOpenssl_stored granted.init rfl rfl
  · next failed =>
      have unkeyed :
          (keysAllocate ssl 1 defaultKeyLen
            (resetKeys .keysGenerated 0
              before)).state.cfg.en.keyed = none :=
        (keysAllocate_unkeyed ssl rfl 1 defaultKeyLen).1
      constructor
      · intro stored
        rw [StoredKeyed, unkeyed] at stored
        cases stored
      · intro granted
        exact absurd (allocated.mpr ⟨granted.keys, granted.nonces⟩) failed

/-- A set-up that is granted leaves valid keys. -/
theorem SetUpGranted.valid
    {before : AesState}
    (granted : SetUpGranted ssl before) :
    (rdrandSetAesRandomKey ssl before).state.Valid
      1 defaultKeyLen .keysGenerated := by
  apply rdrandSetAesRandomKey_valid
  have success :=
    (keysAllocate_one_success_iff ssl
      (resetKeys .keysGenerated 0 before)).mpr
        ⟨granted.keys, granted.nonces⟩
  obtain ⟨key, keyDrawn⟩ := Option.isSome_iff_exists.mp granted.key
  obtain ⟨nonce, nonceDrawn⟩ := Option.isSome_iff_exists.mp granted.nonce
  unfold rdrandSetAesRandomKey
  simp only
  rw [if_pos success, (keysAllocate_spec ssl success).2,
    keyGenerate_drawn ssl keyDrawn nonceDrawn]

/-- As long as the steps are as expected, the stored key is in use. -/
theorem runCounting_stored
    {start : AesState}
    (stored : StoredKeyed start)
    {calls : List CountingCall}
    (kept :
      Each
        (fun earlier call =>
          StepLaw ssl (runCounting ssl earlier start) call)
        calls) :
    StoredKeyed (runCounting ssl calls start) := by
  rcases List.eq_nil_or_concat' calls with rfl | ⟨front, last, rfl⟩
  · exact stored
  · rw [runCounting_append_singleton]
    exact (each_append_singleton.mp kept).2.stored

/--
Random keys are kept as expected in every state of a run exactly if everything
their set-up asks for is granted and the draws of every key change agree.
-/
theorem randomKeysLaw_iff
    (before : AesState)
    (calls : List CountingCall) :
    RandomKeysLaw ssl before calls ↔
      SetUpGranted ssl before ∧
        Each
          (fun earlier call =>
            StepAgrees ssl
              (runCounting ssl earlier
                (rdrandSetAesRandomKey ssl before).state)
              call)
          calls := by
  have steps :
      SetUpGranted ssl before →
      (Each
          (fun earlier call =>
            StepLaw ssl
              (runCounting ssl earlier
                (rdrandSetAesRandomKey ssl before).state)
              call)
          calls ↔
        Each
          (fun earlier call =>
            StepAgrees ssl
              (runCounting ssl earlier
                (rdrandSetAesRandomKey ssl before).state)
              call)
          calls) := by
    intro granted
    apply each_iff_each
    intro earlier call kept
    have stored := (setUp_stored_iff ssl before).mpr granted
    exact
      stepLaw_iff (runCounting_valid ssl (granted.valid ssl) earlier)
        (runCounting_stored ssl stored kept) call
  constructor
  · rintro ⟨set, law⟩
    have granted := (setUp_stored_iff ssl before).mp set
    exact ⟨granted, (steps granted).mp law⟩
  · rintro ⟨granted, agree⟩
    exact
      { set := (setUp_stored_iff ssl before).mpr granted
        steps := (steps granted).mpr agree }

end Run

/-- Only one call of `RAND_bytes` fails; the others yield bytes of ones. -/
def OpenSsl.failingDraw (failing : Nat) : OpenSsl :=
  { OpenSsl.sample with
    randBytes := fun call num =>
      if call = failing then
        none
      else
        some (List.replicate num (if call < 2 then 0 else 255))
    randBytes_length := by
      intro call num bytes drawn
      split at drawn
      · cases drawn
      · cases drawn
        exact List.length_replicate }

/-- A byte is counted right after the set-up. -/
def firstCount (failing : Nat) : Outcome :=
  counter (.failingDraw failing) 1
    (rdrandSetAesRandomKey (.failingDraw failing) aesStart).state

/--
The first change fails: without a key the old one is granted a budget, and
without a nonce the new key is stored and not used.
-/
theorem randomKeysLaw_fails :
    (firstCount 2).success = false ∧
      (firstCount 2).state.cfg.keys.nextCounter = 4096 ∧
      ¬RandomKeysLaw (.failingDraw 2) aesStart [.count 1] ∧
      (firstCount 3).success = false ∧
      (firstCount 3).state.cfg.keys.keys.slot 0 =
        List.replicate 16 255 ∧
      (firstCount 3).state.cfg.en.keyed =
        some (List.replicate 16 0, List.replicate 16 0) ∧
      ¬RandomKeysLaw (.failingDraw 3) aesStart [.count 1] := by
  refine ⟨rfl, by decide, ?_, rfl, by decide, by decide, ?_⟩
  · intro law
    have step := law.steps [] (.count 1) [] rfl
    have undone := step.failed 1 rfl (.inl rfl) rfl
    have budget : 4096 = 0 := undone.nextCounter
    cases budget
  · intro law
    have stored := (law.steps [] (.count 1) [] rfl).stored
    revert stored
    unfold StoredKeyed
    decide

end RdRand
