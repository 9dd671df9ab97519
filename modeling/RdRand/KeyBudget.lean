import RdRand.AesChunks
import RdRand.ReliableCalls

namespace RdRand

/-!
# Payload between key changes

`counter` charges a chunk to `next_counter`, except where it changes the key:
the chunk that comes with a key change is encrypted with the new key and not
charged.  What is encrypted between two keyings is therefore bounded by
`MAX_COUNTER` only as long as no chunk is charged to the bytes that this chunk
should have taken.
-/

/-- Payload encrypted since the last keying of a log. -/
def payloadSinceKeyed (log : List AesEvent) : Nat :=
  log.foldl
    (fun payload event =>
      match event with
      | .keysChange _ => payload
      | .keyed _ _ => 0
      | .payload bytes => payload + bytes)
    0

@[simp] theorem payloadSinceKeyed_nil : payloadSinceKeyed [] = 0 :=
  rfl

@[simp] theorem payloadSinceKeyed_keysChange
    (log : List AesEvent)
    (slot : Nat) :
    payloadSinceKeyed (log ++ [.keysChange slot]) =
      payloadSinceKeyed log := by
  simp [payloadSinceKeyed]

@[simp] theorem payloadSinceKeyed_keyed
    (log : List AesEvent)
    (key nonce : List Byte) :
    payloadSinceKeyed (log ++ [.keyed key nonce]) = 0 := by
  simp [payloadSinceKeyed]

@[simp] theorem payloadSinceKeyed_payload
    (log : List AesEvent)
    (bytes : Nat) :
    payloadSinceKeyed (log ++ [.payload bytes]) =
      payloadSinceKeyed log + bytes := by
  simp [payloadSinceKeyed]

/-- At no point of a log there is more payload since the last keying. -/
def PayloadWithin (limit : Nat) (log : List AesEvent) : Prop :=
  ∀ events, events <+: log → payloadSinceKeyed events ≤ limit

theorem PayloadWithin.nil (limit : Nat) : PayloadWithin limit [] := by
  intro events initial
  rw [List.prefix_nil.mp initial]
  exact Nat.zero_le _

theorem PayloadWithin.snoc
    {limit : Nat}
    {log : List AesEvent}
    (within : PayloadWithin limit log)
    {event : AesEvent}
    (bounded : payloadSinceKeyed (log ++ [event]) ≤ limit) :
    PayloadWithin limit (log ++ [event]) := by
  intro events initial
  rcases List.prefix_concat_iff.mp initial with whole | shorter
  · rw [whole]
    exact bounded
  · exact within events shorter

theorem PayloadWithin.whole
    {limit : Nat}
    {log : List AesEvent}
    (within : PayloadWithin limit log) :
    payloadSinceKeyed log ≤ limit :=
  within log (List.prefix_refl log)

section Meter

variable (ssl : OpenSsl)

/--
The bytes that the chunk of the last key change should have taken from the
budget: with that chunk, the budget exceeds `MAX_COUNTER` by so much.
-/
def unchargedAfter
    (chunk : Chunk)
    (uncharged : Nat)
    (state : AesState) : Nat :=
  if KeyChangeDue chunk.size state then
    chunk.size + changeBudget ssl state - maxCounter
  else
    uncharged

/--
Every chunk that changes no key fits into `next_counter`, and the allowance,
together with the bytes that went uncharged at the last key change.
-/
def ChargesCovered (allowance : Nat) :
    List Chunk → Nat → AesState → Prop
  | [], _, _ => True
  | chunk :: rest, uncharged, state =>
      (¬KeyChangeDue chunk.size state →
        uncharged + chunk.size ≤
          state.cfg.keys.nextCounter + allowance) ∧
        ChargesCovered allowance rest
          (unchargedAfter ssl chunk uncharged state)
          (chunkStep ssl state chunk)

instance chargesCoveredDecidable (allowance : Nat) :
    (chunks : List Chunk) →
    (uncharged : Nat) →
    (state : AesState) →
    Decidable (ChargesCovered ssl allowance chunks uncharged state)
  | [], _, _ => isTrue trivial
  | chunk :: rest, uncharged, state =>
      have := chargesCoveredDecidable allowance rest
        (unchargedAfter ssl chunk uncharged state)
        (chunkStep ssl state chunk)
      inferInstanceAs (Decidable (_ ∧ _))

/-- The log since a base, within a limit, with the counter in step with it. -/
structure Metered
    (base : List AesEvent)
    (limit uncharged : Nat)
    (state : AesState)
    (events : List AesEvent) : Prop where
  log : state.log = base ++ events
  within : PayloadWithin limit events
  meter :
    payloadSinceKeyed events + state.cfg.keys.nextCounter ≤
      maxCounter + uncharged

end Meter

section Rekeying

variable
  {ssl : OpenSsl}
  {amount keyLength : Nat}
  {keysType : KeysType}
  {state : AesState}

/-- A keying that succeeds is logged. -/
theorem keyToOpenssl_keyed
    (init : ∀ call, ssl.initOk call = true)
    (state : AesState) :
    (keyToOpenssl ssl state).state.log =
      state.log ++
        [.keyed state.cfg.keys.currentKey
          state.cfg.keys.currentNonce] := by
  simp [keyToOpenssl, init]

/-- Generating a key with random bytes at hand keys the context. -/
theorem keyGenerate_keyed
    (rand : ssl.RandSucceeds)
    (init : ∀ call, ssl.initOk call = true)
    (state : AesState) :
    ∃ key nonce,
      (keyGenerate ssl state).state.log =
        state.log ++ [.keyed key nonce] := by
  obtain ⟨keyBytes, keyDrawn⟩ :=
    rand.draws state.randCalls state.cfg.keys.keyLength
  obtain ⟨nonceBytes, nonceDrawn⟩ :=
    rand.draws (state.randCalls + 1) state.cfg.keys.keyLength
  rw [keyGenerate_drawn ssl keyDrawn nonceDrawn,
    keyToOpenssl_keyed init]
  exact ⟨_, _, rfl⟩

/-- A call of `counter` that finds a key change due keys the context. -/
theorem counter_keyed
    (rand : ssl.RandSucceeds)
    (init : ∀ call, ssl.initOk call = true)
    (valid : state.Valid amount keyLength keysType)
    {num : Nat}
    (due : KeyChangeDue num state) :
    ∃ (slots : List Nat) (key nonce : List Byte),
      (counter ssl num state).state.log =
        state.log ++
          (slots.map AesEvent.keysChange ++ [.keyed key nonce]) := by
  unfold counter
  rw [if_pos due]
  split
  · obtain ⟨_, _, _, _, _, log, _⟩ :=
      keysChangeRotation_spec ssl (selectNext_valid valid).2
    have keyed :=
      keyToOpenssl_keyed init
        (keysChangeRotation ssl (selectNext state)).state
    rw [log, selectNext, List.append_assoc] at keyed
    rw [keysChange_eq]
    exact
      ⟨[(state.cfg.keys.index + 1) % uintModulus %
          state.cfg.keys.amount], _, _, keyed⟩
  · have generatedValid := keyGenerate_valid ssl valid
    obtain ⟨_, sameLog⟩ := keysRandomize_valid ssl generatedValid
    obtain ⟨key, nonce, log⟩ := keyGenerate_keyed rand init state
    exact ⟨[], key, nonce, sameLog.trans log⟩

variable (ssl) in
/-- A call of `counter` that finds no key change due logs nothing. -/
theorem counter_quiet
    {num : Nat}
    (notDue : ¬KeyChangeDue num state) :
    (counter ssl num state).state.log = state.log := by
  unfold counter
  rw [if_neg notDue]
  rfl

variable (ssl) in
/-- An encryption of payload logs its size, or nothing where it fails. -/
theorem encryptPayload_log
    (input : List Byte)
    (state : AesState) :
    (encryptPayload ssl input state).state.log = state.log ∨
      (encryptPayload ssl input state).state.log =
        state.log ++ [.payload input.length] := by
  unfold encryptPayload
  simp only
  split
  · exact .inl (encryptUpdate_log ssl input state)
  · next output success =>
      rw [encryptUpdate_log, encryptUpdate_length ssl success]
      exact .inr rfl

end Rekeying

section Steps

variable
  {ssl : OpenSsl}
  {amount keyLength : Nat}
  {keysType : KeysType}
  {state : AesState}
  {base events : List AesEvent}
  {limit uncharged : Nat}

/-- Payload that fits the limit and the budget left keeps the meter. -/
theorem Metered.payload
    {size : Nat}
    {counted : AesState}
    (log : counted.log = base ++ events)
    (within : PayloadWithin limit events)
    (meter :
      payloadSinceKeyed events + size +
          counted.cfg.keys.nextCounter ≤
        maxCounter + uncharged)
    (fits : payloadSinceKeyed events + size ≤ limit)
    {input : List Byte}
    (sized : input.length = size) :
    ∃ later,
      Metered base limit uncharged
        (encryptPayload ssl input counted).state later := by
  have sameKeys := encryptPayload_keys ssl input counted
  rcases encryptPayload_log ssl input counted with
    failed | encrypted
  · refine ⟨events, failed.trans log, within, ?_⟩
    rw [sameKeys]
    omega
  · refine ⟨events ++ [.payload size], ?_, ?_, ?_⟩
    · rw [encrypted, log, sized, List.append_assoc]
    · exact within.snoc (by rw [payloadSinceKeyed_payload]; exact fits)
    · rw [sameKeys, payloadSinceKeyed_payload]
      exact meter

/-- A chunk that fits after it was counted keeps the meter. -/
theorem Metered.chunk
    {chunk : Chunk}
    (sized : chunk.WellSized)
    (log : (counter ssl chunk.size state).state.log = base ++ events)
    (within : PayloadWithin limit events)
    (meter :
      payloadSinceKeyed events + chunk.size +
          (counter ssl chunk.size state).state.cfg.keys.nextCounter ≤
        maxCounter + uncharged)
    (fits : payloadSinceKeyed events + chunk.size ≤ limit) :
    ∃ later,
      Metered base limit uncharged (chunkStep ssl state chunk) later := by
  unfold chunkStep
  split
  · refine ⟨events, log, within, ?_⟩
    omega
  · next bytes acquired =>
      exact
        Metered.payload log within meter fits
          (sized.length bytes acquired)

/-- Key changes are no payload. -/
theorem PayloadWithin.slots
    (within : PayloadWithin limit events)
    (slots : List Nat) :
    PayloadWithin limit (events ++ slots.map AesEvent.keysChange) := by
  induction slots generalizing events with
  | nil =>
      simpa using within
  | cons slot rest inductionHypothesis =>
      have next : PayloadWithin limit (events ++ [.keysChange slot]) :=
        within.snoc
          (by rw [payloadSinceKeyed_keysChange]; exact within.whole)
      have later := inductionHypothesis next
      rwa [List.append_assoc] at later

/-- One chunk keeps the meter. -/
theorem chunkStep_metered
    (rand : ssl.RandSucceeds)
    (init : ∀ call, ssl.initOk call = true)
    {allowance : Nat}
    (valid : state.Valid amount keyLength keysType)
    (metered :
      Metered base (maxCounter + allowance) uncharged state events)
    {chunk : Chunk}
    (sized : chunk.WellSized)
    (covered :
      ¬KeyChangeDue chunk.size state →
      uncharged + chunk.size ≤
        state.cfg.keys.nextCounter + allowance) :
    ∃ later,
      Metered base (maxCounter + allowance)
        (unchargedAfter ssl chunk uncharged state)
        (chunkStep ssl state chunk) later := by
  have countedValid := counter_valid ssl valid chunk.size
  have counterBounded := countedValid.keys.nextCounter
  have small : chunk.size ≤ maxCounter :=
    sized.bounded.trans (by decide)
  have meter := metered.meter
  unfold unchargedAfter
  split
  · next due =>
      obtain ⟨slots, key, nonce, log⟩ :=
        counter_keyed rand init valid due
      have budget := counter_budget rand due
      have keyedLog :
          (counter ssl chunk.size state).state.log =
            base ++
              (events ++ slots.map AesEvent.keysChange ++
                [.keyed key nonce]) := by
        rw [log, metered.log]
        simp only [List.append_assoc]
      have keyedWithin :
          PayloadWithin (maxCounter + allowance)
            (events ++ slots.map AesEvent.keysChange ++
              [.keyed key nonce]) :=
        (metered.within.slots slots).snoc
          (by rw [payloadSinceKeyed_keyed]; exact Nat.zero_le _)
      refine Metered.chunk sized keyedLog keyedWithin ?_ ?_
      · rw [payloadSinceKeyed_keyed]
        omega
      · rw [payloadSinceKeyed_keyed]
        omega
  · next notDue =>
      have room := covered notDue
      have quiet :=
        (counter_quiet ssl notDue).trans metered.log
      have covers : chunk.size ≤ state.cfg.keys.nextCounter := by
        unfold KeyChangeDue at notDue
        omega
      have charged :
          (counter ssl chunk.size state).state.cfg.keys.nextCounter =
            state.cfg.keys.nextCounter - chunk.size := by
        unfold counter
        rw [if_neg notDue]
        exact charge_eq valid.keys.nextCounter covers
      refine Metered.chunk sized quiet metered.within ?_ ?_
      · omega
      · omega

/-- Every run of chunks whose charges are covered keeps the meter. -/
theorem runChunks_metered
    (rand : ssl.RandSucceeds)
    (init : ∀ call, ssl.initOk call = true)
    {allowance : Nat}
    {chunks : List Chunk}
    (sized : ∀ chunk ∈ chunks, chunk.WellSized)
    (valid : state.Valid amount keyLength keysType)
    (metered :
      Metered base (maxCounter + allowance) uncharged state events)
    (covered : ChargesCovered ssl allowance chunks uncharged state) :
    ∃ later,
      (runChunks ssl chunks state).log = base ++ later ∧
        PayloadWithin (maxCounter + allowance) later := by
  induction chunks generalizing state uncharged events with
  | nil =>
      exact ⟨events, metered.log, metered.within⟩
  | cons chunk rest inductionHypothesis =>
      obtain ⟨fits, coveredRest⟩ := covered
      obtain ⟨later, next⟩ :=
        chunkStep_metered rand init valid metered
          (sized chunk List.mem_cons_self) fits
      have reaches :=
        chunkStep_reaches ssl state
          (sized chunk List.mem_cons_self).bounded
      exact
        inductionHypothesis
          (fun other member => sized other (List.mem_cons_of_mem _ member))
          (reaches.valid valid) next coveredRest

end Steps

section Runs

variable
  {ssl : OpenSsl}
  {amount keyLength : Nat}
  {keysType : KeysType}
  {start : AesState}

/-- After the keys are set, a run whose charges are covered is bounded. -/
theorem JustSet.payload_within
    (set : JustSet ssl amount keyLength keysType start)
    (rand : ssl.RandSucceeds)
    (init : ∀ call, ssl.initOk call = true)
    {allowance : Nat}
    {chunks : List Chunk}
    (sized : ∀ chunk ∈ chunks, chunk.WellSized)
    (covered : ChargesCovered ssl allowance chunks 0 start) :
    PayloadWithin (maxCounter + allowance)
      (eventsSince start (runChunks ssl chunks start)) := by
  have valid := set.valid.1
  have fresh :
      Metered start.log (maxCounter + allowance) 0 start [] :=
    { log := (List.append_nil _).symm
      within := .nil _
      meter := by
        have bounded := valid.keys.nextCounter
        rw [payloadSinceKeyed_nil]
        omega }
  obtain ⟨later, log, within⟩ :=
    runChunks_metered rand init sized valid fresh covered
  rwa [eventsSince_eq log]

/-- The chunk of a key change exceeds its budget by `MAX_BUFFER_SIZE` at most. -/
theorem chargesCovered_maxBufferSize
    (rand : ssl.RandSucceeds)
    {state : AesState}
    (valid : state.Valid amount keyLength keysType)
    {chunks : List Chunk}
    (sized : ∀ chunk ∈ chunks, chunk.WellSized)
    {uncharged : Nat}
    (bounded : uncharged ≤ maxBufferSize) :
    ChargesCovered ssl maxBufferSize chunks uncharged state := by
  induction chunks generalizing state uncharged with
  | nil =>
      trivial
  | cons chunk rest inductionHypothesis =>
      have chunkSized := sized chunk List.mem_cons_self
      have small := chunkSized.bounded
      have countedValid := counter_valid ssl valid chunk.size
      have counterBounded := countedValid.keys.nextCounter
      have reaches := chunkStep_reaches ssl state small
      refine ⟨?_, ?_⟩
      · intro notDue
        unfold KeyChangeDue at notDue
        omega
      · apply
          inductionHypothesis (reaches.valid valid)
            (fun other member =>
              sized other (List.mem_cons_of_mem _ member))
        unfold unchargedAfter
        split
        · next due =>
            have budget := counter_budget rand due
            omega
        · exact bounded

/-- In every run the payload between two keyings is within both maxima. -/
theorem requests_payload_within
    (set : JustSet ssl amount keyLength keysType start)
    (rand : ssl.RandSucceeds)
    (init : ∀ call, ssl.initOk call = true)
    (device : Device)
    (buffer : StackBuffer)
    (requests : List CtrRequest)
    (position : Nat) :
    PayloadWithin (maxCounter + maxBufferSize)
      (eventsSince start
        (runCalls ssl device buffer (requests.map CtrRequest.call)
          { position := position, state := start }).state) := by
  have sized :=
    requestChunks_wellSized ssl device buffer requests
      { position := position, state := start }
  rw [runCalls_runChunks]
  exact
    set.payload_within rand init sized
      (chargesCovered_maxBufferSize rand set.valid.1 sized
        (Nat.zero_le _))

/--
Where the chunks that change no key fit into what a key change that charged
its own chunk would have left of the budget, the payload between two keyings
is within `MAX_COUNTER`.
-/
theorem requests_payload_within_maxCounter
    (set : JustSet ssl amount keyLength keysType start)
    (rand : ssl.RandSucceeds)
    (init : ∀ call, ssl.initOk call = true)
    (device : Device)
    (buffer : StackBuffer)
    (requests : List CtrRequest)
    (position : Nat)
    (covered :
      ChargesCovered ssl 0
        (requestChunks ssl device buffer requests
          { position := position, state := start })
        0 start) :
    PayloadWithin maxCounter
      (eventsSince start
        (runCalls ssl device buffer (requests.map CtrRequest.call)
          { position := position, state := start }).state) := by
  have sized :=
    requestChunks_wellSized ssl device buffer requests
      { position := position, state := start }
  rw [runCalls_runChunks]
  exact set.payload_within rand init sized covered

/-- Three requests, of which the second changes the key. -/
theorem requests_payload_within_maxCounter_twoKeys :
    PayloadWithin maxCounter
      (eventsSince (twoKeys .sample)
        (runCalls .sample Device.counting .zeroed
          [.getBytesAesCtr 4096 10, .getBytesAesCtr 100 10,
            .getBytesAesCtr 3000 10]
          { position := 0, state := twoKeys .sample }).state) :=
  requests_payload_within_maxCounter twoKeys_justSet
    OpenSsl.sample_randSucceeds (fun _ => rfl) Device.counting .zeroed
    [{ count := 4096, retryLimit := 10 },
      { count := 100, retryLimit := 10 },
      { count := 3000, retryLimit := 10 }]
    0 (by decide +kernel)

/--
Two requests of 6144 bytes: the chunk of the first key change and the two
chunks after it are encrypted with one key.
-/
theorem requests_payload_exceeds_maxCounter :
    JustSet .sample 2 16 .keysGiven (twoKeys .sample) ∧
      Device.counting.NeverFails ∧
      ¬PayloadWithin maxCounter
        (eventsSince (twoKeys .sample)
          (runCalls .sample Device.counting .zeroed
            [.getBytesAesCtr 6144 10, .getBytesAesCtr 6144 10]
            { position := 0, state := twoKeys .sample }).state) := by
  refine ⟨twoKeys_justSet, Device.counting_neverFails, ?_⟩
  intro within
  have exceeded := within _ (List.take_prefix 7 _)
  revert exceeded
  decide +kernel

end Runs

end RdRand
