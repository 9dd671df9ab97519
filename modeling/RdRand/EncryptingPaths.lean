import RdRand.AesCfgKept
import RdRand.BufferEncryption
import RdRand.KeySchedule

namespace RdRand

/-!
# The two encrypting paths

`rdrandGetBytesAesCtr` and `rdrandEncBuffer` are separate copies of one loop.
The first ignores the result of `counter` and counts the tail; the second
gives up where `counter` changes no key, and does not count the tail.  They
agree only where both differences stay invisible.
-/

/-- Both paths write the same bytes and leave the same configuration. -/
structure SameEncryption
    (first : CtrResult)
    (second : Encrypted) : Prop where
  written : first.written = second.written.map Prod.snd
  cfg : first.state.cfg = second.state.cfg

section Condition

variable (ssl : OpenSsl)

/--
So many full chunks find a key change due: the counter is short before the
first, and the budget of every key change but the last is short again.
-/
def FullChunksDue (chunks : Nat) (state : AesState) : Prop :=
  (0 < chunks → state.cfg.keys.nextCounter < maxBufferSize) ∧
    match state.cfg.keysType with
    | .keysGiven => chunks ≤ 1
    | .keysGenerated =>
        ∀ change < chunks - 1,
          drawnCounter ssl (state.randCalls + 3 * change + 2) <
            maxBufferSize

instance (chunks : Nat) (state : AesState) :
    Decidable (FullChunksDue ssl chunks state) := by
  unfold FullChunksDue
  cases state.cfg.keysType <;> infer_instance

/--
The key change that a tail makes due draws the key, nonce and counter that are
in place, and the context has been keyed with them and not used yet.
-/
structure Redrawn (tail : Nat) (state : AesState) : Prop where
  generated : state.cfg.keysType = .keysGenerated
  due : KeyChangeDue tail state
  key :
    ssl.randBytes state.randCalls state.cfg.keys.keyLength =
      some (state.cfg.keys.keys.slot 0)
  nonce :
    ssl.randBytes (state.randCalls + 1) state.cfg.keys.keyLength =
      some (state.cfg.keys.nonces.slot 0)
  nextCounter :
    drawnCounter ssl (state.randCalls + 2) = state.cfg.keys.nextCounter
  keyed :
    state.cfg.en.keyed =
      some (state.cfg.keys.keys.slot 0, state.cfg.keys.nonces.slot 0)
  unused : state.cfg.en.used = 0

/-- The condition under which the paths agree on so many bytes. -/
def PathsAgree (count : Nat) (state : AesState) : Prop :=
  FullChunksDue ssl (count / maxBufferSize) state ∧
    (count % maxBufferSize = 0 ∨
      count / maxBufferSize = 0 ∧
        Redrawn ssl (count % maxBufferSize) state)

end Condition

/-- The keys after a key, a nonce and a counter were drawn. -/
def Keys.redraw
    (keyBytes nonceBytes : List Byte)
    (nextCounter : Nat)
    (keys : Keys) : Keys :=
  { keys with
    keys := keys.keys.write 0 keyBytes
    nonces := keys.nonces.write 0 nonceBytes
    nextCounter := nextCounter }

section Tail

variable
  {ssl : OpenSsl}
  {amount keyLength : Nat}
  {keysType : KeysType}
  {state : AesState}

/-- What `counter` leaves behind where it generates a key. -/
theorem counter_generated_cfg
    (cipher : ssl.CipherSucceeds)
    {num : Nat}
    (due : KeyChangeDue num state)
    (generated : state.cfg.keysType = .keysGenerated)
    {keyBytes nonceBytes buf : List Byte}
    (keyDrawn :
      ssl.randBytes state.randCalls state.cfg.keys.keyLength =
        some keyBytes)
    (nonceDrawn :
      ssl.randBytes (state.randCalls + 1) state.cfg.keys.keyLength =
        some nonceBytes)
    (bufDrawn :
      ssl.randBytes (state.randCalls + 2) 4 = some buf) :
    (counter ssl num state).state.cfg =
      { state.cfg with
        keys :=
          state.cfg.keys.redraw keyBytes nonceBytes
            (drawnCounter ssl (state.randCalls + 2))
        en :=
          state.cfg.en.key
            (state.cfg.keys.redraw keyBytes nonceBytes
              (drawnCounter ssl (state.randCalls + 2))).currentKey
            (state.cfg.keys.redraw keyBytes nonceBytes
              (drawnCounter ssl
                (state.randCalls + 2))).currentNonce } := by
  unfold counter
  rw [if_pos due, generated]
  simp only [keyGenerate_drawn ssl keyDrawn nonceDrawn, keysRandomize,
    randBytes, keyToOpenssl_randCalls, storeNonce, storeKey, bufDrawn,
    setCounter, drawnCounter, Option.getD_some]
  simp only [keyToOpenssl, cipher.init, if_true]
  rfl

/-- Where `counter` generates a key, it redraws the old one or changes it. -/
theorem counter_generated_cfg_eq_iff
    (cipher : ssl.CipherSucceeds)
    (rand : ssl.RandSucceeds)
    (valid : state.Valid amount keyLength keysType)
    {num : Nat}
    (due : KeyChangeDue num state)
    (generated : state.cfg.keysType = .keysGenerated) :
    (counter ssl num state).state.cfg = state.cfg ↔
      Redrawn ssl num state := by
  have single := valid.sameType.symm.trans generated
  obtain ⟨keyBytes, keyDrawn⟩ :=
    rand.draws state.randCalls state.cfg.keys.keyLength
  obtain ⟨nonceBytes, nonceDrawn⟩ :=
    rand.draws (state.randCalls + 1) state.cfg.keys.keyLength
  obtain ⟨buf, bufDrawn⟩ := rand.draws (state.randCalls + 2) 4
  obtain ⟨first, firstNonce⟩ := valid.keys.current_zero single
  have keyWrite := valid.write_key ssl single keyDrawn
  have nonceWrite := valid.write_nonce ssl single nonceDrawn
  have keyNow :
      (state.cfg.keys.redraw keyBytes nonceBytes
        (drawnCounter ssl (state.randCalls + 2))).currentKey =
          keyBytes := by
    simp only [Keys.redraw, Keys.currentKey, first, keyWrite.1]
  have nonceNow :
      (state.cfg.keys.redraw keyBytes nonceBytes
        (drawnCounter ssl (state.randCalls + 2))).currentNonce =
          nonceBytes := by
    simp only [Keys.redraw, Keys.currentNonce, firstNonce,
      nonceWrite.1]
  rw [counter_generated_cfg cipher due generated keyDrawn nonceDrawn
    bufDrawn, keyNow, nonceNow, Keys.redraw]
  constructor
  · intro same
    have sameKeys := congrArg (fun cfg => cfg.keys.keys) same
    have sameNonces := congrArg (fun cfg => cfg.keys.nonces) same
    have sameCounter := congrArg (fun cfg => cfg.keys.nextCounter) same
    have sameKeyed := congrArg (fun cfg => cfg.en.keyed) same
    have sameUsed := congrArg (fun cfg => cfg.en.used) same
    have keyBytesEq := keyWrite.2.mp sameKeys
    have nonceBytesEq := nonceWrite.2.mp sameNonces
    exact
      { generated := generated
        due := due
        key := keyDrawn.trans (congrArg some keyBytesEq)
        nonce := nonceDrawn.trans (congrArg some nonceBytesEq)
        nextCounter := sameCounter
        keyed := by
          rw [← keyBytesEq, ← nonceBytesEq]
          exact sameKeyed.symm
        unused := sameUsed.symm }
  · intro redrawn
    have keyBytesEq : keyBytes = state.cfg.keys.keys.slot 0 :=
      Option.some.inj (keyDrawn.symm.trans redrawn.key)
    have nonceBytesEq : nonceBytes = state.cfg.keys.nonces.slot 0 :=
      Option.some.inj (nonceDrawn.symm.trans redrawn.nonce)
    have sameContext :
        state.cfg.en.key keyBytes nonceBytes = state.cfg.en := by
      rw [CipherContext.key, keyBytesEq, nonceBytesEq,
        ← redrawn.keyed, ← redrawn.unused]
    rw [keyWrite.2.mpr keyBytesEq, nonceWrite.2.mpr nonceBytesEq,
      redrawn.nextCounter, sameContext]

/-- Given keys have a full budget after a change, and none before it. -/
theorem counter_given_cfg_ne
    (rand : ssl.RandSucceeds)
    {num : Nat}
    (small : num ≤ maxCounter)
    (due : KeyChangeDue num state)
    (given : state.cfg.keysType = .keysGiven) :
    (counter ssl num state).state.cfg ≠ state.cfg := by
  intro same
  have budget := counter_budget rand due
  rw [changeBudget, given, same] at budget
  have full : state.cfg.keys.nextCounter = maxCounter := budget
  have large : 0 < maxCounter := by
    decide
  unfold KeyChangeDue at due
  omega

/-- A count that is not zero changes the configuration, unless it redraws it. -/
theorem counter_cfg_eq_iff
    (cipher : ssl.CipherSucceeds)
    (rand : ssl.RandSucceeds)
    (valid : state.Valid amount keyLength keysType)
    {num : Nat}
    (positive : 0 < num)
    (small : num ≤ maxCounter) :
    (counter ssl num state).state.cfg = state.cfg ↔
      Redrawn ssl num state := by
  by_cases due : KeyChangeDue num state
  · cases type : state.cfg.keysType with
    | keysGiven =>
        have changed := counter_given_cfg_ne rand small due type
        refine ⟨fun same => absurd same changed, fun redrawn => ?_⟩
        have generated := redrawn.generated
        rw [type] at generated
        cases generated
    | keysGenerated =>
        exact counter_generated_cfg_eq_iff cipher rand valid due type
  · constructor
    · intro same
      have charged := counter_charges ssl valid due
      rw [same] at charged
      omega
    · intro redrawn
      exact absurd redrawn.due due

/-- Advancing the context loses nothing of a configuration. -/
theorem AesCfg.advance_inj
    {first second : AesCfg}
    {bytes : Nat}
    (same :
      ({ first with en := first.en.advance bytes } : AesCfg) =
        { second with en := second.en.advance bytes }) :
    first = second := by
  obtain ⟨keys, ⟨identity, keyed, used⟩, type⟩ := first
  obtain ⟨keys', ⟨identity', keyed', used'⟩, type'⟩ := second
  simpa [CipherContext.advance] using same

/--
Encrypting one input from two states gives the same bytes and configuration
exactly if the configurations are the same.
-/
theorem encryptPayload_same_iff
    {first second : AesState}
    {input firstOutput secondOutput : List Byte}
    (firstDone :
      (encryptPayload ssl input first).output = some firstOutput)
    (secondDone :
      (encryptPayload ssl input second).output = some secondOutput) :
    (firstOutput = secondOutput ∧
        (encryptPayload ssl input first).state.cfg =
          (encryptPayload ssl input second).state.cfg) ↔
      first.cfg = second.cfg := by
  rw [encryptPayload_cfg ssl firstDone, encryptPayload_cfg ssl secondDone]
  constructor
  · rintro ⟨_, sameCfg⟩
    exact AesCfg.advance_inj sameCfg
  · intro sameCfg
    rw [sameCfg]
    obtain ⟨key, nonce, keyed, rfl⟩ := encryptUpdate_output ssl firstDone
    obtain ⟨key', nonce', keyed', rfl⟩ :=
      encryptUpdate_output ssl secondDone
    rw [sameCfg, keyed', Option.some.injEq, Prod.mk.injEq] at keyed
    obtain ⟨rfl, rfl⟩ := keyed
    exact ⟨by rw [sameCfg], rfl⟩

/-- A tail that is counted by one path only. -/
theorem tail_same_iff
    (cipher : ssl.CipherSucceeds)
    (rand : ssl.RandSucceeds)
    (valid : state.Valid amount keyLength keysType)
    (keyed : state.Keyed)
    {source : List Byte}
    (nonempty : 0 < source.length)
    (small : source.length ≤ maxCounter)
    {output : List Byte}
    (done :
      (encryptPayload ssl source
        (counter ssl source.length state).state).output =
          some output) :
    (output = (encBufferTail ssl source state).written.map Prod.snd ∧
        (encryptPayload ssl source
          (counter ssl source.length state).state).state.cfg =
            (encBufferTail ssl source state).state.cfg) ↔
      Redrawn ssl source.length state := by
  obtain ⟨tailOutput, tailDone⟩ := encryptPayload_done cipher keyed source
  unfold encBufferTail
  rw [if_pos (Nat.ne_of_gt nonempty)]
  simp only [tailDone, withCall_snd]
  rw [encryptPayload_same_iff done tailDone]
  exact counter_cfg_eq_iff cipher rand valid nonempty small

end Tail

section Chunks

variable
  {ssl : OpenSsl}
  {amount keyLength : Nat}
  {keysType : KeysType}
  {state : AesState}

/-- With given keys or generated ones, a key change leaves one chunk less. -/
theorem fullChunksDue_succ_iff
    (rand : ssl.RandSucceeds)
    (due : KeyChangeDue maxBufferSize state)
    (chunks : Nat)
    (input : List Byte) :
    FullChunksDue ssl (chunks + 1) state ↔
      FullChunksDue ssl chunks
        (encryptPayload ssl input
          (counter ssl maxBufferSize state).state).state := by
  have short : state.cfg.keys.nextCounter < maxBufferSize := by
    have positive : 0 < maxBufferSize := by
      decide
    unfold KeyChangeDue at due
    omega
  have budget := counter_budget rand due
  unfold FullChunksDue
  rw [encryptPayload_keysType, counter_keysType, encryptPayload_keys,
    budget, encryptPayload_randCalls, changeBudget]
  cases type : state.cfg.keysType with
  | keysGiven =>
      have large : ¬maxCounter < maxBufferSize := by
        decide
      simp only
      omega
  | keysGenerated =>
      obtain ⟨keyBytes, keyDrawn⟩ :=
        rand.draws state.randCalls state.cfg.keys.keyLength
      obtain ⟨nonceBytes, nonceDrawn⟩ :=
        rand.draws (state.randCalls + 1) state.cfg.keys.keyLength
      obtain ⟨buf, bufDrawn⟩ := rand.draws (state.randCalls + 2) 4
      have calls :
          (counter ssl maxBufferSize state).state.randCalls =
            state.randCalls + 3 := by
        unfold counter
        rw [if_pos due, type]
        simp only [keyGenerate_drawn ssl keyDrawn nonceDrawn,
          keysRandomize, randBytes, keyToOpenssl_randCalls, storeNonce,
          storeKey, bufDrawn, setCounter]
      simp only [calls]
      constructor
      · rintro ⟨_, drawn⟩
        refine ⟨fun positive => drawn 0 (by omega), ?_⟩
        intro change bounded
        have later := drawn (change + 1) (by omega)
        rwa [show state.randCalls + 3 * (change + 1) + 2 =
          state.randCalls + 3 + 3 * change + 2 by omega] at later
      · rintro ⟨first, drawn⟩
        refine ⟨fun _ => short, ?_⟩
        intro change bounded
        cases change with
        | zero =>
            exact first (by omega)
        | succ change =>
            have later := drawn change (by omega)
            rwa [show state.randCalls + 3 * (change + 1) + 2 =
              state.randCalls + 3 + 3 * change + 2 by omega]

/-- The first of some chunks that acquire a source. -/
theorem ctrChunks_acquires
    {acquire : Nat → Nat → Acquired}
    (complete :
      ∀ {size position bytes},
        (acquire size position).bytes = some bytes →
        bytes.length = size)
    (cipher : ssl.CipherSucceeds)
    (keyed : state.Keyed)
    {size position : Nat}
    {rest : List Nat}
    {source : List Byte}
    (positive : 0 < size)
    (fits : size ≤ source.length)
    (acquired :
      (ctrChunks ssl acquire (size :: rest) position state).acquired =
        source) :
    ∃ output later,
      (encryptPayload ssl (source.take size)
          (counter ssl size state).state).output = some output ∧
        (ctrChunks ssl acquire rest later
            (encryptPayload ssl (source.take size)
              (counter ssl size state).state).state).acquired =
          source.drop size ∧
        (ctrChunks ssl acquire (size :: rest) position state).written =
          output ++
            (ctrChunks ssl acquire rest later
              (encryptPayload ssl (source.take size)
                (counter ssl size state).state).state).written ∧
        (ctrChunks ssl acquire (size :: rest) position state).state =
          (ctrChunks ssl acquire rest later
            (encryptPayload ssl (source.take size)
              (counter ssl size state).state).state).state := by
  have nonempty : source ≠ [] := by
    rintro rfl
    simp only [List.length_nil] at fits
    omega
  cases bytes : (acquire size position).bytes with
  | none =>
      rw [ctrChunks_short bytes] at acquired
      exact absurd acquired.symm nonempty
  | some chunk =>
      have length := complete bytes
      obtain ⟨output, done⟩ :=
        encryptPayload_done cipher
          (counter_keeps_keyed ssl keyed size) chunk
      rw [ctrChunks_done bytes done] at acquired ⊢
      have split :
          chunk ++
              (ctrChunks ssl acquire rest (acquire size position).position
                (encryptPayload ssl chunk
                  (counter ssl size state).state).state).acquired =
            source := acquired
      have front : source.take size = chunk := by
        rw [← split, ← length, List.take_left]
      have back :
          (ctrChunks ssl acquire rest (acquire size position).position
            (encryptPayload ssl chunk
              (counter ssl size state).state).state).acquired =
            source.drop size := by
        rw [← split, ← length, List.drop_left]
      rw [front]
      exact
        ⟨output, (acquire size position).position, done, back, rfl, rfl⟩

/-- No full chunks need no key change. -/
theorem fullChunksDue_zero (state : AesState) :
    FullChunksDue ssl 0 state := by
  unfold FullChunksDue
  cases state.cfg.keysType <;> simp

theorem sameEncryption_iff
    {first : CtrResult}
    {second : Encrypted} :
    SameEncryption first second ↔
      first.written = second.written.map Prod.snd ∧
        first.state.cfg = second.state.cfg :=
  ⟨fun same => ⟨same.written, same.cfg⟩, fun ⟨written, cfg⟩ =>
    ⟨written, cfg⟩⟩

/-- The two loops on a source that is no full chunk. -/
theorem paths_tail_same_iff
    (cipher : ssl.CipherSucceeds)
    (rand : ssl.RandSucceeds)
    {acquire : Nat → Nat → Acquired}
    (complete :
      ∀ {size position bytes},
        (acquire size position).bytes = some bytes →
        bytes.length = size)
    {position : Nat}
    {source : List Byte}
    (small : source.length < maxBufferSize)
    (valid : state.Valid amount keyLength keysType)
    (keyed : state.Keyed)
    (acquired :
      (ctrChunks ssl acquire
        (if source.length ≠ 0 then [source.length] else [])
        position state).acquired = source) :
    SameEncryption
        (ctrChunks ssl acquire
          (if source.length ≠ 0 then [source.length] else [])
          position state)
        (encBufferChunks ssl 0 source state) ↔
      source.length = 0 ∨ Redrawn ssl source.length state := by
  by_cases noTail : source.length = 0
  · have empty : source = [] := List.length_eq_zero_iff.mp noTail
    subst empty
    exact ⟨fun _ => .inl rfl, fun _ => ⟨rfl, rfl⟩⟩
  · rw [if_pos noTail] at acquired ⊢
    have nonempty : 0 < source.length := Nat.pos_of_ne_zero noTail
    have bounded : source.length ≤ maxCounter :=
      (Nat.le_of_lt small).trans (by decide)
    obtain ⟨output, later, done, _, written, sameState⟩ :=
      ctrChunks_acquires complete cipher keyed nonempty
        (Nat.le_refl _) acquired
    rw [List.take_length] at done written sameState
    rw [sameEncryption_iff, written, sameState, ctrChunks,
      List.append_nil, encBufferChunks, or_iff_right noTail]
    exact tail_same_iff cipher rand valid keyed nonempty bounded done

/-- The two loops agree exactly under the condition. -/
theorem paths_same_iff
    (cipher : ssl.CipherSucceeds)
    (rand : ssl.RandSucceeds)
    {acquire : Nat → Nat → Acquired}
    (complete :
      ∀ {size position bytes},
        (acquire size position).bytes = some bytes →
        bytes.length = size)
    {tail : Nat}
    (small : tail < maxBufferSize)
    {chunks position : Nat}
    {source : List Byte}
    (valid : state.Valid amount keyLength keysType)
    (keyed : state.Keyed)
    (length : source.length = chunks * maxBufferSize + tail)
    (acquired :
      (ctrChunks ssl acquire
        (List.replicate chunks maxBufferSize ++
          if tail ≠ 0 then [tail] else [])
        position state).acquired = source) :
    SameEncryption
        (ctrChunks ssl acquire
          (List.replicate chunks maxBufferSize ++
            if tail ≠ 0 then [tail] else [])
          position state)
        (encBufferChunks ssl chunks source state) ↔
      FullChunksDue ssl chunks state ∧
        (tail = 0 ∨ chunks = 0 ∧ Redrawn ssl tail state) := by
  induction chunks generalizing state source position with
  | zero =>
      rw [Nat.zero_mul, Nat.zero_add] at length
      subst length
      rw [List.replicate_zero, List.nil_append] at acquired ⊢
      rw [paths_tail_same_iff cipher rand complete small valid keyed
          acquired,
        and_iff_right (fullChunksDue_zero state),
        and_iff_right rfl]
  | succ chunks inductionHypothesis =>
      have positive : 0 < maxBufferSize := by
        decide
      have fits : maxBufferSize ≤ source.length := by
        rw [length, Nat.succ_mul]
        omega
      rw [List.replicate_succ, List.cons_append] at acquired ⊢
      obtain ⟨output, later, done, rest, written, sameState⟩ :=
        ctrChunks_acquires complete cipher keyed positive fits acquired
      have outputLength := encryptUpdate_length ssl done
      rw [List.length_take, Nat.min_eq_left fits] at outputLength
      by_cases due : KeyChangeDue maxBufferSize state
      · have success :=
          (counter_success_iff rand maxBufferSize).mpr due
        have countedValid := counter_valid ssl valid maxBufferSize
        have countedKeyed := counter_keeps_keyed ssl keyed maxBufferSize
        have dropLength :
            (source.drop maxBufferSize).length =
              chunks * maxBufferSize + tail := by
          rw [List.length_drop, length, Nat.succ_mul]
          omega
        -- The context has been used, so nothing after it is a redraw.
        have used :
            (encryptPayload ssl (source.take maxBufferSize)
              (counter ssl maxBufferSize state).state).state.cfg.en.used ≠
                0 := by
          rw [encryptPayload_cfg ssl done]
          simp only [CipherContext.advance, List.length_take,
            Nat.min_eq_left fits]
          omega
        have further :=
          inductionHypothesis
            (encryptPayload_valid ssl countedValid _)
            (encryptPayload_keeps_keyed ssl countedKeyed _)
            dropLength rest
        rw [sameEncryption_iff] at further ⊢
        rw [written, sameState, encBufferChunks]
        simp only [success, if_true, done, List.map_append, withCall_snd,
          List.append_cancel_left_eq]
        rw [further, fullChunksDue_succ_iff rand due]
        refine and_congr_right fun _ => or_congr_right ?_
        constructor
        · rintro ⟨_, redrawn⟩
          exact absurd redrawn.unused used
        · rintro ⟨impossible, _⟩
          cases impossible
      · constructor
        · intro same
          have nothing := congrArg List.length same.written
          have failed :
              (encBufferChunks ssl (chunks + 1) source
                state).written = [] :=
            (encBufferChunks_failed (fun encrypts => due encrypts.due)
              chunks).2
          rw [written, failed, List.length_append, outputLength]
            at nothing
          simp at nothing
          omega
        · rintro ⟨⟨first, _⟩, _⟩
          exact absurd (.inr (first (Nat.succ_pos _))) due

/--
The two encrypting paths agree on the bytes acquired exactly under the
condition, from every state reached after the keys were set.
-/
theorem encrypting_paths_agree_iff
    {start : AesState}
    (set : JustSet ssl amount keyLength keysType start)
    (reaches : AesReaches ssl start state)
    (cipher : ssl.CipherSucceeds)
    (rand : ssl.RandSucceeds)
    (device : Device)
    (buffer : StackBuffer)
    (retryLimit : Int)
    (position : Nat)
    {plaintext : List Byte}
    (acquired :
      (rdrandGetBytesAesCtr ssl device buffer plaintext.length
        retryLimit position state).acquired = plaintext) :
    SameEncryption
        (rdrandGetBytesAesCtr ssl device buffer plaintext.length
          retryLimit position state)
        (rdrandEncBuffer ssl plaintext state) ↔
      PathsAgree ssl plaintext.length state := by
  have small : plaintext.length % maxBufferSize < maxBufferSize :=
    Nat.mod_lt _ (by decide)
  have length :
      plaintext.length =
        plaintext.length / maxBufferSize * maxBufferSize +
          plaintext.length % maxBufferSize := by
    rw [Nat.mul_comm, Nat.div_add_mod]
  exact
    paths_same_iff cipher rand acquireBuffer_length small
      (reaches.valid set.valid.1)
      (reaches.keyed (set.keyed cipher.init)) length acquired

/-- Two given keys after 4096 bytes, which use up the counter. -/
def spentKeys : AesState :=
  (runCalls .sample Device.counting .zeroed [.getBytesAesCtr 4096 10]
    { position := 0, state := twoKeys .sample }).state

/-- The full chunk that comes next changes the key on both paths. -/
theorem encrypting_paths_agree_spentKeys :
    SameEncryption
      (rdrandGetBytesAesCtr .sample Device.counting .zeroed 2048 10 512
        spentKeys)
      (rdrandEncBuffer .sample
        (rdrandGetBytesAesCtr .sample Device.counting .zeroed 2048 10
          512 spentKeys).acquired
        spentKeys) := by
  have reaches : AesReaches .sample (twoKeys .sample) spentKeys :=
    runCalls_reaches Device.counting .zeroed [.getBytesAesCtr 4096 10]
      { position := 0, state := twoKeys .sample }
  have due : FullChunksDue .sample 1 spentKeys := by
    decide +kernel
  have length :
      (rdrandGetBytesAesCtr .sample Device.counting .zeroed 2048 10 512
        spentKeys).acquired.length = 2048 := by
    decide +kernel
  have agree :=
    encrypting_paths_agree_iff twoKeys_justSet reaches
      OpenSsl.sample_cipherSucceeds OpenSsl.sample_randSucceeds
      Device.counting .zeroed 10 512 (show _ = _ from by rw [length])
  rw [length] at agree
  exact agree.mpr ⟨due, .inl rfl⟩

/--
The first 2048 bytes with given keys: no key change is due, and the second
path gives up.
-/
theorem encrypting_paths_disagree :
    JustSet .sample 2 16 .keysGiven (twoKeys .sample) ∧
      (rdrandGetBytesAesCtr .sample Device.counting .zeroed 2048 10 0
        (twoKeys .sample)).acquired.length = 2048 ∧
      ¬SameEncryption
        (rdrandGetBytesAesCtr .sample Device.counting .zeroed 2048 10 0
          (twoKeys .sample))
        (rdrandEncBuffer .sample
          (rdrandGetBytesAesCtr .sample Device.counting .zeroed 2048 10
            0 (twoKeys .sample)).acquired
          (twoKeys .sample)) := by
  refine ⟨twoKeys_justSet, by decide +kernel, ?_⟩
  intro same
  have sameLength := congrArg List.length same.written
  revert sameLength
  decide +kernel

end Chunks

end RdRand
