import RdRand.CipherStrings

namespace RdRand

/-!
# Keys that are set, and the cipher that reads them

Keys are set by a call of `rdrand_set_aes_keys` or from a file.  Two lengths
are accepted, but only for one of them do the strings that are handed over,
then and at any later key change, have the bytes the cipher reads.
-/

open ControlLoop

/--
A run of calls that count, encrypt and change the key, with the strings that
are handed over in it.
-/
inductive KeyRun (ssl : OpenSsl) (start : AesState) :
    List Handed → AesState → Prop where
  | start : KeyRun ssl start [] start
  | counter
      {handed : List Handed}
      {state : AesState}
      (run : KeyRun ssl start handed state)
      (num : Nat) :
      KeyRun ssl start (handed ++ counterHands ssl num state)
        (counter ssl num state).state
  | keysChange
      {handed : List Handed}
      {state : AesState}
      (run : KeyRun ssl start handed state) :
      KeyRun ssl start (handed ++ keysChangeHands ssl state)
        (keysChange ssl state).state
  | keyGenerate
      {handed : List Handed}
      {state : AesState}
      (run : KeyRun ssl start handed state) :
      KeyRun ssl start (handed ++ keyGenerateHands ssl state)
        (keyGenerate ssl state).state
  | payload
      {handed : List Handed}
      {state : AesState}
      (run : KeyRun ssl start handed state)
      (input : List Byte) :
      KeyRun ssl start handed (encryptPayload ssl input state).state

/-- The bytes of a key on the first line of a file that is not empty. -/
def fileKeyLength (contents : List Char) : Nat :=
  match (fileLines contents).find? (!List.isEmpty ·) with
  | none => 0
  | some line => line.length / 3

/--
Keys that were set with success, by a call or from a file: the length of the
keys, the strings that were handed over, and the state after it.
-/
inductive KeySetting
    (ssl : OpenSsl)
    (heap : Nat → List Byte)
    (before : AesState) : Nat → List Handed → AesState → Prop where
  | call
      {amount keyLength : Nat}
      {keys nonces : List (List Byte)}
      (success :
        (rdrandSetAesKeys ssl amount keyLength keys nonces
          before).success = true) :
      KeySetting ssl heap before keyLength
        (rdrandSetAesKeysHands ssl amount keyLength keys nonces before)
        (rdrandSetAesKeys ssl amount keyLength keys nonces before).state
  | file
      {contents : List Char}
      {loaded : Loaded}
      (read : loadKeys ssl heap contents before = some loaded)
      (ok : loaded.result = .ok) :
      KeySetting ssl heap before (fileKeyLength contents)
        (loadKeysHands ssl heap contents before) loaded.state

section Runs

variable
  {ssl : OpenSsl}
  {heap : Nat → List Byte}
  {length : Nat}
  {start later before state : AesState}
  {handed : List Handed}

/-- A run over keys of one length hands over no others. -/
theorem KeyRun.keyStep
    (strings : start.cfg.keys.Strings length)
    (run : KeyRun ssl start handed later) :
    KeyStep length start handed later := by
  induction run with
  | start =>
      exact .none strings rfl (List.append_nil _).symm rfl
  | counter _ num inductionHypothesis =>
      exact
        inductionHypothesis.trans
          (counter_keyStep ssl inductionHypothesis.strings num)
  | keysChange _ inductionHypothesis =>
      exact
        inductionHypothesis.trans
          (keysChange_keyStep ssl inductionHypothesis.strings)
  | keyGenerate _ inductionHypothesis =>
      exact
        inductionHypothesis.trans
          (keyGenerate_keyStep ssl inductionHypothesis.strings)
  | payload _ input inductionHypothesis =>
      have step :=
        inductionHypothesis.trans
          (encryptPayload_keyStep ssl inductionHypothesis.strings input)
      rwa [List.append_nil] at step

/-- Handing over strings before which no others were handed over. -/
theorem keyToOpenssl_keyStep_of_kept
    (strings : state.cfg.keys.Strings length)
    (calls : state.initCalls = before.initCalls)
    (log : state.log = before.log) :
    KeyStep length before [keyToOpensslHands state]
      (keyToOpenssl ssl state).state := by
  have kept : KeyStep length before [] state :=
    .none strings calls (log.trans (List.append_nil _).symm) rfl
  exact kept.trans (keyToOpenssl_keyStep ssl strings)

/-- A call that sets keys hands over the first key and its nonce. -/
theorem rdrandSetAesKeys_keyStep
    {amount keyLength : Nat}
    {keys nonces : List (List Byte)}
    (success :
      (rdrandSetAesKeys ssl amount keyLength keys nonces
        before).success = true) :
    KeyStep keyLength before
        (rdrandSetAesKeysHands ssl amount keyLength keys nonces before)
        (rdrandSetAesKeys ssl amount keyLength keys nonces before).state ∧
      rdrandSetAesKeysHands ssl amount keyLength keys nonces before ≠
        [] := by
  unfold rdrandSetAesKeys at success
  unfold rdrandSetAesKeys rdrandSetAesKeysHands
  split at success
  · cases success
  · next inRange =>
      rw [if_neg inRange, if_neg inRange]
      simp only at success ⊢
      split at success
      · next allocated =>
          obtain ⟨positive, result⟩ := keysAllocate_spec ssl allocated
          rw [if_pos allocated, if_pos allocated, result]
          refine
            ⟨keyToOpenssl_keyStep_of_kept ?_ rfl rfl, nofun⟩
          exact
            { keyLength := rfl
              amountPositive := positive
              keySlots := by
                rw [KeyArray.copyKeys_slots_length]
                exact List.length_replicate
              nonceSlots := by
                rw [KeyArray.copyKeys_slots_length]
                exact List.length_replicate
              keyStrings :=
                (KeyArray.uniform_replicate _ _ _).copyKeys keys
                  (Nat.le_refl keyLength)
              nonceStrings :=
                (KeyArray.uniform_replicate _ _ _).copyKeys nonces
                  (Nat.div_le_self keyLength 2)
              current := ⟨0, positive, rfl, rfl⟩ }
      · cases success

/-- The keys of a file are as long as the first of them. -/
theorem Adds.fileKeyLength_eq
    {contents : List Char}
    {load next : KeyLoad}
    (adds : Adds (fileLines contents) load next)
    (some : keyCount (fileLines contents) ≠ 0) :
    next.firstLen = fileKeyLength contents := by
  unfold fileKeyLength
  split
  · next noKey =>
      refine absurd (keyCount_eq_zero_iff.mpr ?_) some
      intro line member
      have empty := List.find?_eq_none.mp noKey line member
      simpa using empty
  · next line found =>
      have nonempty : line ≠ [] := by
        have first := List.find?_some found
        simpa using first
      have digits :=
        adds.firstLen line (List.mem_of_find?_eq_some found) nonempty
      have spans := digits.spans
      omega

/-- What reading a file does before its keys are set. -/
theorem loadKeys_ok
    {contents : List Char}
    {loaded : Loaded}
    (read : loadKeys ssl heap contents before = some loaded)
    (ok : loaded.result = .ok) :
    ∃ load : KeyLoad,
      loadKeysHands ssl heap contents before =
          rdrandSetAesKeysHands ssl load.amount load.firstLen load.keys
            load.nonces load.aes ∧
        (rdrandSetAesKeys ssl load.amount load.firstLen load.keys
          load.nonces load.aes).success = true ∧
        loaded.state =
          (rdrandSetAesKeys ssl load.amount load.firstLen load.keys
            load.nonces load.aes).state ∧
        load.firstLen = fileKeyLength contents ∧
        load.aes.initCalls = before.initCalls ∧
        load.aes.log = before.log := by
  obtain ⟨count, next, failure, load, run⟩ :=
    loadKeys_run ssl heap contents before
  have eof : failure = .eof := by
    by_contra notEof
    rw [run.loadKeys_eq, if_neg notEof] at read
    cases read
    exact run.leaves.notOk ok
  obtain ⟨adds, amount, firstLen⟩ := run.adds_eof eof
  have hands :
      loadKeysHands ssl heap contents before =
        setLoadedKeysHands ssl load := by
    unfold loadKeysHands
    rw [run.run, eof]
  have set : setLoadedKeys ssl load = loaded := by
    rw [run.loadKeys_eq, if_pos eof] at read
    exact Option.some.inj read
  unfold setLoadedKeysHands at hands
  unfold setLoadedKeys at set
  split at set
  · rw [← set] at ok
    cases ok
  · next some =>
      rw [if_neg some] at hands
      simp only at set
      split at set
      · next success =>
          refine
            ⟨load, hands, success, (congrArg Loaded.state set).symm, ?_,
              ?_, ?_⟩
          · rw [firstLen]
            exact adds.fileKeyLength_eq (amount ▸ some)
          · rw [run.leaves.aes, KeyLoad.aesAfter, adds.aes]
            rfl
          · rw [run.leaves.aes, KeyLoad.aesAfter, adds.aes]
            rfl
      · rw [← set] at ok
        cases ok

/-- Setting keys hands over some strings, all as long as the keys. -/
theorem KeySetting.keyStep
    (set : KeySetting ssl heap before length handed state) :
    (length = 8 ∨ length = 16) ∧
      KeyStep length before handed state ∧
      handed ≠ [] := by
  cases set with
  | call success =>
      exact
        ⟨(rdrandSetAesKeys_length success).2,
          rdrandSetAesKeys_keyStep success⟩
  | file read ok =>
      obtain ⟨load, hands, success, sameState, firstLen, calls, log⟩ :=
        loadKeys_ok read ok
      obtain ⟨step, some⟩ := rdrandSetAesKeys_keyStep success
      rw [hands, sameState, ← firstLen]
      refine
        ⟨(rdrandSetAesKeys_length success).2,
          { step with
            calls := calls ▸ step.calls
            keyed := log ▸ step.keyed },
          some⟩

/--
After keys were set, all strings that are handed over then and at later key
changes have the bytes the cipher reads exactly where the keys have them.
-/
theorem keySetting_suffices_iff
    (set : KeySetting ssl heap before length handed state) :
    (∀ more later,
        KeyRun ssl state more later →
        ∀ call ∈ handed ++ more, call.Suffices) ↔
      length = evpAes128CtrLength := by
  obtain ⟨accepted, step, some⟩ := set.keyStep
  unfold evpAes128CtrLength
  constructor
  · intro enough
    obtain ⟨call, member⟩ := List.exists_mem_of_ne_nil handed some
    have longEnough :=
      (enough [] state .start call (List.mem_append_left [] member)).key
    have keyLength := (step.lengths call member).1
    unfold evpAes128CtrLength at longEnough
    omega
  · rintro rfl more later run call member
    have lengths :=
      (step.trans (run.keyStep step.strings)).lengths call member
    exact ⟨Nat.le_of_eq lengths.1.symm, Nat.le_of_eq lengths.2.symm⟩

end Runs

/-- Two keys of 16 bytes that were given. -/
theorem keySetting_suffices_iff_twoKeys :
    (∀ more later,
        KeyRun .sample (twoKeys .sample) more later →
        ∀ call ∈
          rdrandSetAesKeysHands .sample 2 16
              [List.replicate 16 1, List.replicate 16 2]
              [List.replicate 8 3, List.replicate 8 4] aesStart ++
            more,
          call.Suffices) ↔
      16 = evpAes128CtrLength := by
  have set :
      KeySetting .sample (fun _ => []) aesStart 16
        (rdrandSetAesKeysHands .sample 2 16
          [List.replicate 16 1, List.replicate 16 2]
          [List.replicate 8 3, List.replicate 8 4] aesStart)
        (twoKeys .sample) :=
    .call (by decide)
  exact keySetting_suffices_iff set

/--
A key of eight bytes is set, by a call and from a file, and the cipher is
handed no more than these.
-/
theorem keySetting_handsOver_eight :
    (rdrandSetAesKeys .sample 1 8 [List.replicate 8 1]
          [List.replicate 4 3] aesStart).success = true ∧
      rdrandSetAesKeysHands .sample 1 8 [List.replicate 8 1]
          [List.replicate 4 3] aesStart =
        [{ key := List.replicate 8 1
           nonce := List.replicate 4 3 ++ List.replicate 4 0 }] ∧
      (loadKeys .sample (fun _ => List.replicate 32 7)
          (List.replicate 24 'a' ++ ['\n']) aesStart).map
            Loaded.result =
        some .ok ∧
      loadKeysHands .sample (fun _ => List.replicate 32 7)
          (List.replicate 24 'a' ++ ['\n']) aesStart =
        [{ key := List.replicate 8 0xaa
           nonce := List.replicate 4 0xaa ++ List.replicate 4 0 }] ∧
      ∀ byte nonce,
        ¬ Handed.Suffices
          { key := List.replicate 8 byte, nonce := nonce } := by
  refine ⟨by decide, by decide, by decide, by decide, ?_⟩
  intro byte nonce enough
  have longEnough := enough.key
  rw [List.length_replicate] at longEnough
  exact absurd longEnough (by decide)

end RdRand
