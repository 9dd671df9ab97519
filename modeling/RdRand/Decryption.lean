import RdRand.AesRing

namespace RdRand

/-!
# Decrypting with the same keys

Counter mode decrypts like it encrypts, so `rdrand_enc_buffer` undoes itself
where both calls find the layer in the same state.  Two parties that set the
same given keys stay in such states, buffer after buffer, also where a call
gives up in the middle of a buffer.
-/

open KeyRing

/-- The bytes a call wrote. -/
def Encrypted.bytes (encrypted : Encrypted) : List Byte :=
  encrypted.written.map Prod.snd

/-- What a ring makes of a buffer. -/
structure Sent where
  bytes : List Byte
  whole : Bool
  ring : Ring 8

/--
The chunks of a buffer, each masked after a turn of the ring, up to the first
one that does not turn it, and then a tail that is not charged.
-/
def sendChunks (rules : Rules 8) : Nat → List Byte → Ring 8 → Sent
  | 0, source, ring =>
      { bytes := ring.mask rules source
        whole := true
        ring := ring.advance source.length }
  | chunks + 1, source, ring =>
      let charged := ring.charge rules maxBufferSize
      let front := source.take maxBufferSize
      if ring.Spent maxBufferSize then
        let rest :=
          sendChunks rules chunks (source.drop maxBufferSize)
            (charged.advance front.length)
        { bytes := charged.mask rules front ++ rest.bytes
          whole := rest.whole
          ring := rest.ring }
      else
        { bytes := [], whole := false, ring := charged }

/-- A call reports and writes what a ring makes of its buffer. -/
structure Sends
    (keyLength : Nat)
    (sent : Sent)
    (encrypted : Encrypted) : Prop where
  rc : encrypted.rc = if sent.whole then 1 else 0
  bytes : encrypted.bytes = sent.bytes
  follows : Follows keyLength sent.ring encrypted.state

section Refinement

variable
  {ssl : OpenSsl}
  {keyLength : Nat}
  {ring : Ring 8}
  {state : AesState}

/-- The tail of a buffer is masked. -/
theorem encBufferTail_sends
    (cipher : ssl.CipherSucceeds)
    (follows : Follows keyLength ring state)
    (source : List Byte) :
    Sends keyLength (sendChunks ssl.rules 0 source ring)
      (encBufferTail ssl source state) := by
  by_cases empty : source.length ≠ 0
  · obtain ⟨output, later⟩ :=
      encryptPayload_follows cipher follows source
    unfold encBufferTail
    rw [if_pos empty]
    simp only [output]
    exact ⟨rfl, withCall_snd _ _, later⟩
  · have nothing : source = [] :=
      List.length_eq_zero_iff.mp (not_not.mp empty)
    subst nothing
    exact ⟨rfl, rfl, follows⟩

/-- The chunks of a buffer are sent by the ring. -/
theorem encBufferChunks_sends
    (cipher : ssl.CipherSucceeds)
    (follows : Follows keyLength ring state)
    (chunks : Nat)
    (source : List Byte) :
    Sends keyLength (sendChunks ssl.rules chunks source ring)
      (encBufferChunks ssl chunks source state) := by
  induction chunks generalizing source ring state with
  | zero =>
      exact encBufferTail_sends cipher follows source
  | succ chunks inductionHypothesis =>
      obtain ⟨turned, charged⟩ :=
        counter_charge_follows cipher follows maxBufferSize
      unfold encBufferChunks sendChunks
      by_cases spent : ring.Spent maxBufferSize
      · obtain ⟨output, later⟩ :=
          encryptPayload_follows cipher charged
            (source.take maxBufferSize)
        have rest :=
          inductionHypothesis later (source.drop maxBufferSize)
        simp only [turned.mpr spent, if_true, output, spent]
        refine ⟨rest.rc, ?_, rest.follows⟩
        rw [← rest.bytes]
        simp only [Encrypted.bytes, List.map_append, withCall_snd]
      · have unturned :
            (counter ssl maxBufferSize state).success = false :=
          eq_false_of_ne_true (mt turned.mp spent)
        simp only [unturned, Bool.false_eq_true, if_false, spent]
        exact ⟨rfl, rfl, charged⟩

end Refinement

section Receiving

variable
  (rules : Rules 8)
  {chunks : Nat}
  {source received : List Byte}
  {ring : Ring 8}

/-- A full chunk that turns the ring is masked, and the others follow. -/
theorem sendChunks_spent
    (full : maxBufferSize ≤ source.length)
    (spent : ring.Spent maxBufferSize) :
    sendChunks rules (chunks + 1) source ring =
      { sendChunks rules chunks (source.drop maxBufferSize)
          ((ring.turn rules).advance maxBufferSize) with
        bytes :=
          (ring.turn rules).mask rules (source.take maxBufferSize) ++
            (sendChunks rules chunks (source.drop maxBufferSize)
              ((ring.turn rules).advance maxBufferSize)).bytes } := by
  rw [sendChunks]
  simp only [spent, if_true, List.length_take, Nat.min_eq_left full,
    Ring.charge]

/-- A full chunk that does not turn the ring ends the buffer. -/
theorem sendChunks_unspent
    (unspent : ¬ ring.Spent maxBufferSize) :
    sendChunks rules (chunks + 1) source ring =
      { bytes := []
        whole := false
        ring := ring.charge rules maxBufferSize } := by
  rw [sendChunks]
  simp only [unspent, if_false]

/-- A ring sends no more than its buffer, and all of it where it is whole. -/
theorem sendChunks_length
    (share : source.length / maxBufferSize = chunks) :
    (sendChunks rules chunks source ring).bytes.length ≤ source.length ∧
      ((sendChunks rules chunks source ring).whole = true →
        (sendChunks rules chunks source ring).bytes.length =
          source.length) := by
  induction chunks generalizing source ring with
  | zero =>
      simp [sendChunks]
  | succ chunks inductionHypothesis =>
      obtain ⟨full, restShare⟩ := source_full_of_share share
      by_cases spent : ring.Spent maxBufferSize
      · have rest :=
          @inductionHypothesis (source.drop maxBufferSize)
            ((ring.turn rules).advance maxBufferSize) restShare
        obtain ⟨within, whole⟩ := rest
        rw [sendChunks_spent rules full spent]
        simp only [List.length_append, Ring.mask_length,
          List.length_take, Nat.min_eq_left full]
        rw [List.length_drop] at within whole
        refine ⟨by omega, fun all => ?_⟩
        have restWhole := whole all
        omega
      · rw [sendChunks_unspent rules spent]
        exact ⟨Nat.zero_le _, fun whole => nomatch whole⟩

/-- What begins with two parts begins with the first, then the second. -/
theorem prefix_parts
    {first second whole : List Byte}
    (front : first ++ second <+: whole) :
    first <+: whole ∧ second <+: whole.drop first.length := by
  obtain ⟨rest, rfl⟩ := front
  rw [List.append_assoc, List.drop_left]
  exact ⟨List.prefix_append _ _, List.prefix_append _ _⟩

/--
A buffer as long as the source that begins with what the ring made of it is
turned back, as far as that goes, and the ring ends up the same.
-/
theorem sendChunks_received
    (share : source.length / maxBufferSize = chunks)
    (sameLength : received.length = source.length)
    (front : (sendChunks rules chunks source ring).bytes <+: received) :
    sendChunks rules chunks received ring =
      { sendChunks rules chunks source ring with
        bytes :=
          source.take (sendChunks rules chunks source ring).bytes.length } := by
  induction chunks generalizing source received ring with
  | zero =>
      have masked : received = ring.mask rules source := by
        refine (front.eq_of_length ?_).symm
        rw [sameLength]
        exact Ring.mask_length _ _ _
      subst masked
      simp [sendChunks]
  | succ chunks inductionHypothesis =>
      obtain ⟨full, restShare⟩ := source_full_of_share share
      by_cases spent : ring.Spent maxBufferSize
      · have receivedFull : maxBufferSize ≤ received.length :=
          sameLength ▸ full
        have chunk :
            ((ring.turn rules).mask rules
              (source.take maxBufferSize)).length = maxBufferSize := by
          rw [Ring.mask_length, List.length_take, Nat.min_eq_left full]
        rw [sendChunks_spent rules full spent] at front ⊢
        obtain ⟨head, tail⟩ := prefix_parts front
        rw [chunk] at tail
        have unmasked := (ring.turn rules).mask_front rules head
        rw [List.length_take, Nat.min_eq_left full] at unmasked
        have rest :=
          inductionHypothesis restShare
            (by rw [List.length_drop, List.length_drop, sameLength]) tail
        rw [sendChunks_spent rules receivedFull spent, unmasked, rest]
        simp only [List.length_append, chunk, List.take_add]
      · rw [sendChunks_unspent rules spent, sendChunks_unspent rules spent]
        rfl

end Receiving

/-- A call of `rdrand_enc_buffer`, with its buffer. -/
structure BufferCall where
  source : List Byte
  encrypted : Encrypted

/-- Successive calls of `rdrand_enc_buffer`. -/
def bufferCalls
    (ssl : OpenSsl) : List (List Byte) → AesState → List BufferCall
  | [], _ => []
  | source :: rest, state =>
      { source := source
        encrypted := rdrandEncBuffer ssl source state } ::
        bufferCalls ssl rest (rdrandEncBuffer ssl source state).state

/--
A buffer that holds what a call wrote.  Behind the bytes that were written it
may hold anything, like a destination the call did not fill.
-/
structure BufferCall.ArrivesIn
    (call : BufferCall)
    (received : List Byte) : Prop where
  sameLength : received.length = call.source.length
  front : call.encrypted.bytes <+: received

/-- A destination that held a copy of the source before the call. -/
def BufferCall.delivered (call : BufferCall) : List Byte :=
  call.encrypted.bytes ++ call.source.drop call.encrypted.bytes.length

section Delivery

variable (ssl : OpenSsl)

/-- A call writes no more than it reads. -/
theorem encBufferChunks_length_le
    (chunks : Nat)
    (source : List Byte)
    (state : AesState) :
    (encBufferChunks ssl chunks source state).written.length ≤
      source.length := by
  induction chunks generalizing source state with
  | zero =>
      unfold encBufferChunks encBufferTail
      split
      · simp only
        split
        · exact Nat.zero_le _
        · next output done =>
            rw [withCall_length]
            exact Nat.le_of_eq (encryptUpdate_length ssl done)
      · exact Nat.zero_le _
  | succ chunks inductionHypothesis =>
      unfold encBufferChunks
      simp only
      split
      · split
        · exact Nat.zero_le _
        · next output done =>
            have length := encryptUpdate_length ssl done
            have rest :=
              inductionHypothesis (source.drop maxBufferSize)
                (encryptPayload ssl (source.take maxBufferSize)
                  (counter ssl maxBufferSize state).state).state
            rw [List.length_append, withCall_length, length]
            rw [List.length_take]
            rw [List.length_drop] at rest
            omega
      · exact Nat.zero_le _

theorem rdrandEncBuffer_length_le
    (source : List Byte)
    (state : AesState) :
    (rdrandEncBuffer ssl source state).written.length ≤ source.length :=
  encBufferChunks_length_le ssl _ source state

/-- A destination that held the source holds what the call wrote. -/
theorem bufferCalls_delivered
    (sources : List (List Byte))
    (state : AesState) :
    List.Forall₂ BufferCall.ArrivesIn (bufferCalls ssl sources state)
      ((bufferCalls ssl sources state).map BufferCall.delivered) := by
  induction sources generalizing state with
  | nil =>
      exact .nil
  | cons source rest inductionHypothesis =>
      refine .cons ⟨?_, List.prefix_append _ _⟩ (inductionHypothesis _)
      have within := rdrandEncBuffer_length_le ssl source state
      simp only [BufferCall.delivered, Encrypted.bytes,
        List.length_append, List.length_map, List.length_drop]
      omega

end Delivery

/-- A later call gives back what an earlier one encrypted. -/
structure BufferCall.RestoredBy (call later : BufferCall) : Prop where
  rc : later.encrypted.rc = call.encrypted.rc
  front :
    later.encrypted.bytes =
      call.source.take call.encrypted.bytes.length
  whole :
    call.encrypted.rc = 1 →
    later.encrypted.bytes = call.source

section Parties

variable
  {sender receiver : OpenSsl}
  {keyLength : Nat}
  {ring : Ring 8}
  {senderState receiverState : AesState}

/-- One buffer is given back, and the parties stay in step. -/
theorem rdrandEncBuffer_restored
    (senderCipher : sender.CipherSucceeds)
    (receiverCipher : receiver.CipherSucceeds)
    (sameStream : receiver.keystream = sender.keystream)
    (senderFollows : Follows keyLength ring senderState)
    (receiverFollows : Follows keyLength ring receiverState)
    {source received : List Byte}
    (arrives :
      BufferCall.ArrivesIn
        { source := source
          encrypted := rdrandEncBuffer sender source senderState }
        received) :
    BufferCall.RestoredBy
        { source := source
          encrypted := rdrandEncBuffer sender source senderState }
        { source := received
          encrypted := rdrandEncBuffer receiver received receiverState } ∧
      ∃ later : Ring 8,
        Follows keyLength later
            (rdrandEncBuffer sender source senderState).state ∧
          Follows keyLength later
            (rdrandEncBuffer receiver received receiverState).state := by
  have sameRules : receiver.rules = sender.rules :=
    congrArg (fun stream => (⟨stream, maxCounter⟩ : Rules 8)) sameStream
  have sent :=
    encBufferChunks_sends senderCipher senderFollows
      (source.length / maxBufferSize) source
  have back :=
    encBufferChunks_sends receiverCipher receiverFollows
      (received.length / maxBufferSize) received
  obtain ⟨sameLength, front⟩ := arrives
  simp only [rdrandEncBuffer] at sameLength front ⊢
  rw [sent.bytes] at front
  rw [sameRules, sameLength,
    sendChunks_received sender.rules rfl sameLength front] at back
  rw [sameLength]
  refine ⟨⟨back.rc.trans sent.rc.symm, ?_, ?_⟩, _, sent.follows, back.follows⟩
  · rw [sent.bytes]
    exact back.bytes
  · intro done
    have whole :
        (sendChunks sender.rules (source.length / maxBufferSize) source
          ring).whole = true := by
      by_contra broken
      rw [sent.rc, if_neg broken] at done
      cases done
    have length := (sendChunks_length sender.rules rfl).2 whole
    refine back.bytes.trans ?_
    rw [length, List.take_length]

/-- Parties that are in step give back buffer after buffer. -/
theorem bufferCalls_restored
    (senderCipher : sender.CipherSucceeds)
    (receiverCipher : receiver.CipherSucceeds)
    (sameStream : receiver.keystream = sender.keystream)
    (senderFollows : Follows keyLength ring senderState)
    (receiverFollows : Follows keyLength ring receiverState)
    {sources received : List (List Byte)}
    (arrive :
      List.Forall₂ BufferCall.ArrivesIn
        (bufferCalls sender sources senderState) received) :
    List.Forall₂ BufferCall.RestoredBy
      (bufferCalls sender sources senderState)
      (bufferCalls receiver received receiverState) := by
  induction sources generalizing ring senderState receiverState received with
  | nil =>
      cases arrive
      exact .nil
  | cons source rest inductionHypothesis =>
      obtain _ | ⟨first, others⟩ := arrive
      obtain ⟨restored, later, senderLater, receiverLater⟩ :=
        rdrandEncBuffer_restored senderCipher receiverCipher sameStream
          senderFollows receiverFollows first
      exact
        .cons restored
          (inductionHypothesis senderLater receiverLater others)

/--
A party that sets the same keys decrypts with `rdrand_enc_buffer` what another
one encrypted with it, buffer after buffer.  The parties may have used the
library before, and may draw different random bytes.
-/
theorem givenKeys_decrypt
    (senderCipher : sender.CipherSucceeds)
    (receiverCipher : receiver.CipherSucceeds)
    (sameStream : receiver.keystream = sender.keystream)
    {amount keyLength : Nat}
    (amountBounded : amount < uintModulus)
    {keys nonces : List (List Byte)}
    {senderBefore receiverBefore : AesState}
    (senderSet :
      (rdrandSetAesKeys sender amount keyLength keys nonces
        senderBefore).success = true)
    (receiverSet :
      (rdrandSetAesKeys receiver amount keyLength keys nonces
        receiverBefore).success = true)
    {sources received : List (List Byte)}
    (arrive :
      List.Forall₂ BufferCall.ArrivesIn
        (bufferCalls sender sources
          (rdrandSetAesKeys sender amount keyLength keys nonces
            senderBefore).state)
        received) :
    List.Forall₂ BufferCall.RestoredBy
      (bufferCalls sender sources
        (rdrandSetAesKeys sender amount keyLength keys nonces
          senderBefore).state)
      (bufferCalls receiver received
        (rdrandSetAesKeys receiver amount keyLength keys nonces
          receiverBefore).state) :=
  bufferCalls_restored senderCipher receiverCipher sameStream
    (rdrandSetAesKeys_follows senderCipher.init amountBounded senderSet)
    (rdrandSetAesKeys_follows receiverCipher.init amountBounded
      receiverSet)
    arrive

end Parties

/-- The cipher of `OpenSsl.sample`, with other random bytes. -/
def OpenSsl.sampleReceiver : OpenSsl :=
  reliable countingStream fun _ => 7

theorem OpenSsl.sampleReceiver_cipherSucceeds :
    sampleReceiver.CipherSucceeds :=
  ⟨fun _ => rfl, fun _ => rfl⟩

/--
Two buffers use up the allowance of the first key, although they are not
encrypted.  The next one turns the ring, and stops after a chunk; the fifth
turns it once more.
-/
def turningBuffers : List (List Byte) :=
  [List.replicate 2048 1, List.replicate 2048 2, List.replicate 4096 3,
    List.replicate 2048 4, List.replicate 2049 5, [6, 7]]

/-- What becomes of the buffers when they are encrypted with two keys. -/
def turningCalls : List BufferCall :=
  bufferCalls .sample turningBuffers (twoKeys .sample)

/-- They are received by a party that has used a random key before. -/
theorem givenKeys_decrypt_turning :
    turningCalls.map (fun call => call.encrypted.rc) = [0, 0, 0, 0, 1, 1] ∧
      turningCalls.map (fun call => call.encrypted.bytes.length) =
        [0, 0, 2048, 0, 2049, 2] ∧
      turningCalls.map
          (fun call => call.encrypted.state.cfg.keys.index) =
        [0, 0, 1, 1, 0, 0] ∧
      List.Forall₂ BufferCall.RestoredBy turningCalls
        (bufferCalls .sampleReceiver
          (turningCalls.map BufferCall.delivered)
          (rdrandSetAesKeys .sampleReceiver 2 16
            [List.replicate 16 1, List.replicate 16 2]
            [List.replicate 8 3, List.replicate 8 4]
            (rdrandSetAesRandomKey .sampleReceiver
              aesStart).state).state) :=
  ⟨by decide +kernel, by decide +kernel, by decide +kernel,
    givenKeys_decrypt OpenSsl.sample_cipherSucceeds
      OpenSsl.sampleReceiver_cipherSucceeds rfl (by decide) rfl rfl
      (bufferCalls_delivered .sample turningBuffers (twoKeys .sample))⟩

end RdRand
