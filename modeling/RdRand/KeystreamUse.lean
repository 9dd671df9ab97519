import RdRand.AesSetUp
import RdRand.KeystreamClock

namespace RdRand

/-!
# How the keystream is used

Every byte that a cipher call masks has its place in a keystream: the keying
that is in force, and the position since then.  The payload and the keys that
a rotation encrypts take their places from the same clock, so that over any
run no two bytes are masked at one place.  A byte of a keystream is another
matter: it comes again where a later keying takes the same key and nonce.
-/

open KeystreamClock

/-- The keys and nonces of the keyings in a log. -/
def loggedKeyings (log : List AesEvent) : List (List Byte × List Byte) :=
  log.filterMap fun event =>
    match event with
    | .keyed key nonce => some (key, nonce)
    | .keysChange _ => none
    | .payload _ => none

/-- The key and the nonce of a keying, by its number in the log. -/
def keyingAt (log : List AesEvent) (keying : Nat) :
    Option (List Byte × List Byte) :=
  (loggedKeyings log)[keying - 1]?

/-- The keyings so far, and the keystream used since the last one. -/
def AesState.clock (state : AesState) : Clock where
  keyings := (loggedKeyings state.log).length
  used := state.cfg.en.used

/-- A byte that a cipher call masks. -/
structure Masked where
  place : Place
  plain : Byte
  cipher : Byte
  deriving Repr, DecidableEq

section Uses

variable (ssl : OpenSsl)

/-- The bytes that a call of `EVP_EncryptUpdate` masks. -/
def updateMasks (input : List Byte) (state : AesState) : List Masked :=
  match (encryptUpdate ssl input state).output with
  | none => []
  | some output =>
      ((state.clock.places input.length).zip (input.zip output)).map
        fun (place, plain, cipher) =>
          { place := place, plain := plain, cipher := cipher }

/-- The bytes that `keys_change_rotation` masks. -/
def rotationMasks (state : AesState) : List Masked :=
  if state.cfg.keys.keyCurrent = none then
    []
  else
    let length := state.cfg.keys.keyLength
    let first := state.cfg.keys.currentKey.take length
    updateMasks ssl first state ++
      updateMasks ssl (state.cfg.keys.currentNonce.take length)
        (encryptUpdate ssl first state).state

/-- The bytes that `counter` masks: those of a change to a given key. -/
def counterMasks (num : Nat) (state : AesState) : List Masked :=
  if KeyChangeDue num state ∧ state.cfg.keysType = .keysGiven then
    rotationMasks ssl (selectNext state)
  else
    []

/-- The bytes that the chunks and the tail of `rdrand_enc_buffer` mask. -/
def encBufferMasks : Nat → List Byte → AesState → List Masked
  | 0, source, state =>
      if source.length ≠ 0 then updateMasks ssl source state else []
  | chunks + 1, source, state =>
      let counted := counter ssl maxBufferSize state
      let first := source.take maxBufferSize
      counterMasks ssl maxBufferSize state ++
        if counted.success then
          let update := encryptPayload ssl first counted.state
          updateMasks ssl first counted.state ++
            match update.output with
            | none => []
            | some _ =>
                encBufferMasks chunks (source.drop maxBufferSize)
                  update.state
        else
          []

/-- The bytes that the chunks of `rdrand_get_bytes_aes_ctr` mask. -/
def ctrMasks
    (acquire : Nat → Nat → Acquired) :
    List Nat → Nat → AesState → List Masked
  | [], _, _ => []
  | size :: rest, position, state =>
      let counted := counter ssl size state
      let acquired := acquire size position
      counterMasks ssl size state ++
        match acquired.bytes with
        | none => []
        | some bytes =>
            let update := encryptPayload ssl bytes counted.state
            updateMasks ssl bytes counted.state ++
              match update.output with
              | none => []
              | some _ => ctrMasks acquire rest acquired.position update.state

section Calls

variable (device : Device) (buffer : StackBuffer)

/-- The bytes that a call masks. -/
def callMasks (run : AesRun) : AesCall → List Masked
  | .getBytesAesCtr count retryLimit =>
      ctrMasks ssl (acquireBuffer device buffer retryLimit)
        (chunkSizes count) run.position run.state
  | .encBuffer source =>
      encBufferMasks ssl (source.length / maxBufferSize) source run.state

/-- The bytes that a call writes to its destination. -/
def callWritten (run : AesRun) : AesCall → List Byte
  | .getBytesAesCtr count retryLimit =>
      (rdrandGetBytesAesCtr ssl device buffer count retryLimit
        run.position run.state).written
  | .encBuffer source =>
      (rdrandEncBuffer ssl source run.state).written.map Prod.snd

/-- The bytes that a sequence of calls masks. -/
def runMasks : List AesCall → AesRun → List Masked
  | [], _ => []
  | call :: rest, run =>
      callMasks ssl device buffer run call ++
        runMasks rest (runCall ssl device buffer run call)

/-- The bytes that a sequence of calls writes. -/
def runWritten : List AesCall → AesRun → List Byte
  | [], _ => []
  | call :: rest, run =>
      callWritten ssl device buffer run call ++
        runWritten rest (runCall ssl device buffer run call)

end Calls

/-- The byte is masked with the keystream of its keying. -/
def Masked.By (log : List AesEvent) (masked : Masked) : Prop :=
  0 < masked.place.1 ∧
    ∃ key nonce,
      keyingAt log masked.place.1 = some (key, nonce) ∧
        masked.cipher =
          masked.plain ^^^ ssl.keystream key nonce masked.place.2

/-- A cipher context that is keyed was keyed last in the log. -/
def AesState.LoggedKey (state : AesState) : Prop :=
  state.cfg.en.keyed = none ∨
    state.cfg.en.keyed = (loggedKeyings state.log).getLast?

/--
What the masked bytes are between two states: their places are those of the
clock, and their masks the keystream of the logged keyings.
-/
structure Masks
    (before : AesState)
    (masked : List Masked)
    (after : AesState) : Prop where
  ticks : Ticks before.clock (masked.map Masked.place) after.clock
  logged : loggedKeyings before.log <+: loggedKeyings after.log
  kept : before.LoggedKey → after.LoggedKey
  by_keystream :
    before.LoggedKey →
    ∀ byte ∈ masked, byte.By ssl after.log

end Uses

/--
The byte of a keystream that a byte is masked with: a key and a nonce, and an
offset.
-/
def Masked.source (log : List AesEvent) (masked : Masked) :
    Option (List Byte × List Byte) × Nat :=
  (keyingAt log masked.place.1, masked.place.2)

/-- No two keyings that mask anything take the same key and nonce. -/
def KeyingsDiffer (log : List AesEvent) (masked : List Masked) : Prop :=
  ∀ first ∈ masked,
    ∀ second ∈ masked,
      keyingAt log first.place.1 = keyingAt log second.place.1 →
      first.place.1 = second.place.1

section Steps

variable {ssl : OpenSsl} {before middle after : AesState}

/-- A byte masked by the keystream of some keyings is so with later ones. -/
theorem Masked.By.extend
    {masked : Masked}
    {log later : List AesEvent}
    (made : masked.By ssl log)
    (front : loggedKeyings log <+: loggedKeyings later) :
    masked.By ssl later := by
  obtain ⟨positive, key, nonce, found, cipher⟩ := made
  refine ⟨positive, key, nonce, ?_, cipher⟩
  obtain ⟨more, same⟩ := front
  unfold keyingAt at found ⊢
  obtain ⟨inKeyed, _⟩ := List.getElem?_eq_some_iff.mp found
  rw [← same, List.getElem?_append_left inKeyed]
  exact found

/-- Where all keyings differ, those that mask anything do. -/
theorem KeyingsDiffer.of_nodup
    {log : List AesEvent}
    {masked : List Masked}
    (nodup : (loggedKeyings log).Nodup)
    (made : ∀ byte ∈ masked, byte.By ssl log) :
    KeyingsDiffer log masked := by
  intro first inFirst second inSecond same
  obtain ⟨firstPositive, _, _, found, _⟩ := made first inFirst
  obtain ⟨secondPositive, _⟩ := made second inSecond
  unfold keyingAt at same found
  obtain ⟨inKeyed, _⟩ := List.getElem?_eq_some_iff.mp found
  have equal := (List.getElem?_inj inKeyed nodup).mp same
  omega

/-- Nothing is masked. -/
theorem Masks.nothing (state : AesState) : Masks ssl state [] state where
  ticks := .start
  logged := List.prefix_refl _
  kept := id
  by_keystream := fun _ => nofun

/-- What is masked first, and then. -/
theorem Masks.trans
    {first second : List Masked}
    (one : Masks ssl before first middle)
    (other : Masks ssl middle second after) :
    Masks ssl before (first ++ second) after where
  ticks := by
    rw [List.map_append]
    exact one.ticks.trans other.ticks
  logged := one.logged.trans other.logged
  kept logged := other.kept (one.kept logged)
  by_keystream logged byte member := by
    rcases List.mem_append.mp member with inFirst | inSecond
    · exact (one.by_keystream logged byte inFirst).extend other.logged
    · exact other.by_keystream (one.kept logged) byte inSecond

/-- A step that leaves the cipher context and the keyings alone. -/
theorem Masks.idle
    (en : after.cfg.en = before.cfg.en)
    (log : loggedKeyings after.log = loggedKeyings before.log) :
    Masks ssl before [] after where
  ticks := by
    have clock : after.clock = before.clock := by
      simp only [AesState.clock, en, log]
    rw [clock]
    exact .start
  logged :=
    log.symm ▸ List.prefix_rfl
  kept logged := by
    unfold AesState.LoggedKey
    rw [en, log]
    exact logged
  by_keystream := fun _ => nofun

/-- A step that leaves them alone may follow. -/
theorem Masks.then_idle
    {masked : List Masked}
    (one : Masks ssl before masked middle)
    (en : after.cfg.en = middle.cfg.en)
    (log : loggedKeyings after.log = loggedKeyings middle.log) :
    Masks ssl before masked after := by
  have both := one.trans (.idle en log)
  rwa [List.append_nil] at both

/-- A step that masks nothing may come before. -/
theorem Masks.after_idle
    {masked : List Masked}
    (other : Masks ssl middle masked after)
    (en : middle.cfg.en = before.cfg.en)
    (log : loggedKeyings middle.log = loggedKeyings before.log) :
    Masks ssl before masked after :=
  Masks.trans (.idle en log) other

/-- Events that are no keyings add none. -/
theorem loggedKeyings_append
    (log more : List AesEvent) :
    loggedKeyings (log ++ more) = loggedKeyings log ++ loggedKeyings more :=
  List.filterMap_append

/-- One byte of a successful cipher call. -/
theorem mem_updateMasks
    {input output : List Byte}
    {state : AesState}
    (success : (encryptUpdate ssl input state).output = some output)
    {byte : Masked}
    (member : byte ∈ updateMasks ssl input state) :
    ∃ index,
      byte.place =
          ((loggedKeyings state.log).length, state.cfg.en.used + index) ∧
        input[index]? = some byte.plain ∧
        output[index]? = some byte.cipher := by
  unfold updateMasks at member
  rw [success] at member
  obtain ⟨⟨place, plain, cipher⟩, inZip, rfl⟩ := List.mem_map.mp member
  obtain ⟨index, found⟩ := List.mem_iff_getElem?.mp inZip
  obtain ⟨atPlace, atBytes⟩ := List.getElem?_zip_eq_some.mp found
  refine ⟨index, ?_, List.getElem?_zip_eq_some.mp atBytes⟩
  simp only [Clock.places, List.getElem?_map, Option.map_eq_some_iff]
    at atPlace
  obtain ⟨position, here, rfl⟩ := atPlace
  obtain ⟨_, rfl⟩ := List.getElem?_eq_some_iff.mp here
  rw [List.getElem_range', Nat.one_mul]
  rfl

/-- The places of a successful cipher call are the next ones. -/
theorem updateMasks_places
    {input output : List Byte}
    {state : AesState}
    (success : (encryptUpdate ssl input state).output = some output) :
    (updateMasks ssl input state).map Masked.place =
      state.clock.places input.length := by
  have length := encryptUpdate_length ssl success
  have fits :
      (state.clock.places input.length).length ≤
        (input.zip output).length := by
    rw [Clock.places_length, List.length_zip, length, Nat.min_self]
  unfold updateMasks
  rw [success]
  simp only [List.map_map]
  exact List.map_fst_zip fits

/-- A successful cipher call writes what it masks. -/
theorem updateMasks_ciphers
    {input output : List Byte}
    {state : AesState}
    (success : (encryptUpdate ssl input state).output = some output) :
    (updateMasks ssl input state).map Masked.cipher = output := by
  have length := encryptUpdate_length ssl success
  have bytes : (input.zip output).map Prod.snd = output :=
    List.map_snd_zip (Nat.le_of_eq length)
  have entries :
      ((state.clock.places input.length).zip (input.zip output)).map
          Prod.snd =
        input.zip output := by
    refine List.map_snd_zip ?_
    rw [List.length_zip, Clock.places_length, length, Nat.min_self]
  unfold updateMasks
  rw [success]
  calc
    _ = (((state.clock.places input.length).zip
          (input.zip output)).map Prod.snd).map Prod.snd := by
        rw [List.map_map, List.map_map]
        rfl
    _ = output := by
        rw [entries, bytes]

end Steps

section Functions

variable (ssl : OpenSsl)

/-- What a cipher call masks. -/
theorem updateMasks_masks
    (input : List Byte)
    (state : AesState) :
    Masks ssl state (updateMasks ssl input state)
      (encryptUpdate ssl input state).state := by
  cases success : (encryptUpdate ssl input state).output with
  | none =>
      have failed :
          (ssl.encryptOk state.encryptCalls &&
            state.cfg.en.keyed.isSome) = false := by
        rw [← encryptUpdate_isSome ssl input, success]
        rfl
      have nothing : updateMasks ssl input state = [] := by
        unfold updateMasks
        rw [success]
      rw [nothing, encryptUpdate_state, failed]
      exact .idle rfl rfl
  | some output =>
      have succeeded :
          (ssl.encryptOk state.encryptCalls &&
            state.cfg.en.keyed.isSome) = true := by
        rw [← encryptUpdate_isSome ssl input, success]
        rfl
      obtain ⟨key, nonce, keyed, made⟩ := encryptUpdate_output ssl success
      refine ⟨?_, ?_, ?_, ?_⟩
      · rw [updateMasks_places success, encryptUpdate_state,
          if_pos succeeded]
        exact Ticks.start.advance input.length
      · exact
          (encryptUpdate_log ssl input state).symm ▸ List.prefix_rfl
      · unfold AesState.LoggedKey
        rw [encryptUpdate_keyed, encryptUpdate_log]
        exact id
      · intro logged byte member
        obtain ⟨index, place, plain, cipher⟩ :=
          mem_updateMasks success member
        have current :=
          logged.resolve_left (by rw [keyed]; exact nofun)
        rw [keyed, List.getLast?_eq_getElem?] at current
        obtain ⟨inLog, _⟩ := List.getElem?_eq_some_iff.mp current.symm
        rw [made, CounterMode.apply_getElem?, plain] at cipher
        rw [encryptUpdate_log]
        refine ⟨?_, key, nonce, ?_, ?_⟩
        · rw [place]
          exact Nat.lt_of_le_of_lt (Nat.zero_le _) (by omega)
        · rw [place]
          exact current.symm
        · rw [place]
          exact (Option.some.inj cipher).symm

/-- A keying starts a keystream. -/
theorem keyToOpenssl_masks (state : AesState) :
    Masks ssl state [] (keyToOpenssl ssl state).state := by
  unfold keyToOpenssl
  simp only
  split
  · have more :
        loggedKeyings
            (state.log ++
              [.keyed state.cfg.keys.currentKey
                state.cfg.keys.currentNonce]) =
          loggedKeyings state.log ++
            [(state.cfg.keys.currentKey,
              state.cfg.keys.currentNonce)] :=
      loggedKeyings_append _ _
    refine ⟨?_, ?_, ?_, fun _ => nofun⟩
    · simp only [AesState.clock, more, List.length_append,
        List.length_singleton]
      exact Ticks.start.rekey
    · rw [more]
      exact List.prefix_append _ _
    · intro _
      unfold AesState.LoggedKey
      simp only [more, List.getLast?_append, List.getLast?_singleton]
      exact .inr rfl
  · exact .idle rfl rfl

/-- A generated key is taken into use, and nothing is masked. -/
theorem keyGenerate_masks (state : AesState) :
    Masks ssl state [] (keyGenerate ssl state).state := by
  unfold keyGenerate
  simp only
  split
  · exact .idle rfl rfl
  · split
    · exact .idle rfl rfl
    · exact (keyToOpenssl_masks ssl _).after_idle rfl rfl

theorem keysRandomize_masks (state : AesState) :
    Masks ssl state [] (keysRandomize ssl state).state := by
  unfold keysRandomize
  simp only
  split
  · exact .idle rfl rfl
  · exact .idle rfl rfl

/-- A rotation masks a key and a nonce. -/
theorem keysChangeRotation_masks (state : AesState) :
    Masks ssl state (rotationMasks ssl state)
      (keysChangeRotation ssl state).state := by
  unfold keysChangeRotation rotationMasks
  split
  · exact .nothing state
  · have key :=
      updateMasks_masks ssl
        (state.cfg.keys.currentKey.take state.cfg.keys.keyLength) state
    have nonce :=
      updateMasks_masks ssl
        (state.cfg.keys.currentNonce.take state.cfg.keys.keyLength)
        (encryptUpdate ssl
          (state.cfg.keys.currentKey.take state.cfg.keys.keyLength)
          state).state
    exact (key.trans nonce).then_idle rfl rfl

/-- What `counter` masks. -/
theorem counter_masks
    (num : Nat)
    (state : AesState) :
    Masks ssl state (counterMasks ssl num state)
      (counter ssl num state).state := by
  unfold counter counterMasks
  by_cases due : KeyChangeDue num state
  · rw [if_pos due]
    cases type : state.cfg.keysType with
    | keysGiven =>
        have selected :
            loggedKeyings (selectNext state).log = loggedKeyings state.log :=
          (loggedKeyings_append _ _).trans (List.append_nil _)
        have rotated :
            Masks ssl state (rotationMasks ssl (selectNext state))
              (keysChangeRotation ssl (selectNext state)).state :=
          (keysChangeRotation_masks ssl _).after_idle rfl selected
        have rekeyed := rotated.trans (keyToOpenssl_masks ssl _)
        rw [List.append_nil] at rekeyed
        rw [if_pos ⟨due, rfl⟩]
        simp only [keysChange_eq]
        exact rekeyed.then_idle rfl rfl
    | keysGenerated =>
        rw [if_neg (fun both => nomatch both.2)]
        exact (keyGenerate_masks ssl state).trans (keysRandomize_masks ssl _)
  · rw [if_neg due, if_neg (fun both => due both.1)]
    exact .idle rfl rfl

/-- What an encryption of payload masks. -/
theorem encryptPayload_masks
    (input : List Byte)
    (state : AesState) :
    Masks ssl state (updateMasks ssl input state)
      (encryptPayload ssl input state).state := by
  have updated := updateMasks_masks ssl input state
  unfold encryptPayload
  simp only
  split
  · exact updated
  · refine updated.then_idle rfl ?_
    exact (loggedKeyings_append _ _).trans (List.append_nil _)

/-- What `rdrand_enc_buffer` masks. -/
theorem encBufferChunks_masks
    (chunks : Nat)
    (source : List Byte)
    (state : AesState) :
    Masks ssl state (encBufferMasks ssl chunks source state)
      (encBufferChunks ssl chunks source state).state := by
  induction chunks generalizing source state with
  | zero =>
      have tail := encryptPayload_masks ssl source state
      unfold encBufferChunks encBufferMasks encBufferTail
      split
      · simp only
        split
        · exact tail
        · exact tail
      · exact .nothing state
  | succ chunks inductionHypothesis =>
      have counted := counter_masks ssl maxBufferSize state
      have chunk :=
        encryptPayload_masks ssl (source.take maxBufferSize)
          (counter ssl maxBufferSize state).state
      unfold encBufferChunks encBufferMasks
      simp only
      split
      · refine counted.trans ?_
        cases (encryptPayload ssl (source.take maxBufferSize)
            (counter ssl maxBufferSize state).state).output with
        | none =>
            simp only [List.append_nil]
            exact chunk
        | some output =>
            exact chunk.trans (inductionHypothesis _ _)
      · rw [List.append_nil]
        exact counted

/-- What `rdrand_get_bytes_aes_ctr` masks. -/
theorem ctrChunks_masks
    (acquire : Nat → Nat → Acquired)
    (sizes : List Nat)
    (position : Nat)
    (state : AesState) :
    Masks ssl state (ctrMasks ssl acquire sizes position state)
      (ctrChunks ssl acquire sizes position state).state := by
  induction sizes generalizing position state with
  | nil =>
      exact .nothing state
  | cons size rest inductionHypothesis =>
      have counted := counter_masks ssl size state
      unfold ctrChunks ctrMasks
      simp only
      cases (acquire size position).bytes with
      | none =>
          rw [List.append_nil]
          exact counted
      | some bytes =>
          have chunk :=
            encryptPayload_masks ssl bytes
              (counter ssl size state).state
          refine counted.trans ?_
          simp only
          cases (encryptPayload ssl bytes
              (counter ssl size state).state).output with
          | none =>
              simp only [List.append_nil]
              exact chunk
          | some output =>
              exact chunk.trans (inductionHypothesis _ _)

/-- What `rdrand_enc_buffer` writes is masked, in this order. -/
theorem encBufferChunks_written
    (chunks : Nat)
    (source : List Byte)
    (state : AesState) :
    ((encBufferChunks ssl chunks source state).written.map
        Prod.snd).Sublist
      ((encBufferMasks ssl chunks source state).map Masked.cipher) := by
  have values :
      ∀ call (bytes : List Byte),
        (withCall call bytes).map Prod.snd = bytes := by
    intro call bytes
    simp [withCall]
  induction chunks generalizing source state with
  | zero =>
      unfold encBufferChunks encBufferMasks encBufferTail
      split
      · simp only
        cases done : (encryptPayload ssl source state).output with
        | none =>
            exact List.nil_sublist _
        | some output =>
            simp only
            rw [values, updateMasks_ciphers done]
      · exact .refl []
  | succ chunks inductionHypothesis =>
      unfold encBufferChunks encBufferMasks
      simp only
      rw [List.map_append]
      split
      · refine .trans ?_ (List.sublist_append_right _ _)
        cases done :
            (encryptPayload ssl (source.take maxBufferSize)
              (counter ssl maxBufferSize state).state).output with
        | none =>
            exact List.nil_sublist _
        | some output =>
            simp only
            rw [List.map_append, List.map_append, values,
              updateMasks_ciphers done]
            exact (inductionHypothesis _ _).append_left output
      · exact List.nil_sublist _

/-- What `rdrand_get_bytes_aes_ctr` writes is masked, in this order. -/
theorem ctrChunks_written
    (acquire : Nat → Nat → Acquired)
    (sizes : List Nat)
    (position : Nat)
    (state : AesState) :
    (ctrChunks ssl acquire sizes position state).written.Sublist
      ((ctrMasks ssl acquire sizes position state).map
        Masked.cipher) := by
  induction sizes generalizing position state with
  | nil =>
      exact .refl []
  | cons size rest inductionHypothesis =>
      unfold ctrChunks ctrMasks
      simp only
      rw [List.map_append]
      refine .trans ?_ (List.sublist_append_right _ _)
      cases (acquire size position).bytes with
      | none =>
          exact .refl []
      | some bytes =>
          simp only
          cases done :
              (encryptPayload ssl bytes
                (counter ssl size state).state).output with
          | none =>
              exact List.nil_sublist _
          | some output =>
              simp only
              rw [List.map_append, updateMasks_ciphers done]
              exact (inductionHypothesis _ _).append_left output

variable (device : Device) (buffer : StackBuffer)

/-- What a sequence of calls masks. -/
theorem runCalls_masks
    (calls : List AesCall)
    (run : AesRun) :
    Masks ssl run.state (runMasks ssl device buffer calls run)
      (runCalls ssl device buffer calls run).state := by
  induction calls generalizing run with
  | nil =>
      exact .nothing run.state
  | cons call rest inductionHypothesis =>
      have first :
          Masks ssl run.state (callMasks ssl device buffer run call)
            (runCall ssl device buffer run call).state := by
        cases call with
        | getBytesAesCtr count retryLimit =>
            exact ctrChunks_masks ssl _ _ _ _
        | encBuffer source =>
            exact encBufferChunks_masks ssl _ _ _
      exact first.trans (inductionHypothesis _)

/-- What a sequence of calls writes is masked, in this order. -/
theorem runWritten_sublist
    (calls : List AesCall)
    (run : AesRun) :
    (runWritten ssl device buffer calls run).Sublist
      ((runMasks ssl device buffer calls run).map Masked.cipher) := by
  induction calls generalizing run with
  | nil =>
      exact .refl []
  | cons call rest inductionHypothesis =>
      have first :
          (callWritten ssl device buffer run call).Sublist
            ((callMasks ssl device buffer run call).map
              Masked.cipher) := by
        cases call with
        | getBytesAesCtr count retryLimit =>
            exact ctrChunks_written ssl _ _ _ _
        | encBuffer source =>
            exact encBufferChunks_written ssl _ _ _
      rw [runMasks, runWritten, List.map_append]
      exact first.append (inductionHypothesis _)

end Functions

/--
Setting keys ends with a keying of a new context, or with the generation of a
key for it.
-/
theorem JustSet.of_fresh
    {ssl : OpenSsl}
    {amount keyLength : Nat}
    {keysType : KeysType}
    {state : AesState}
    (set : JustSet ssl amount keyLength keysType state)
    (property : AesState → Prop)
    (keying :
      ∀ fresh : AesState,
        fresh.cfg.en.keyed = none →
        fresh.cfg.en.used = 0 →
        property (keyToOpenssl ssl fresh).state)
    (generation :
      ∀ fresh : AesState,
        fresh.cfg.en.keyed = none →
        fresh.cfg.en.used = 0 →
        property (keyGenerate ssl fresh).state) :
    property state := by
  cases set with
  | given _ success =>
      unfold rdrandSetAesKeys at success ⊢
      split at success
      · cases success
      · next accepted =>
          rw [if_neg accepted]
          simp only at success ⊢
          split at success
          · next allocated =>
              rw [if_pos allocated]
              refine keying _ ?_ ?_
              · rw [(keysAllocate_spec ssl allocated).2]
              · rw [(keysAllocate_spec ssl allocated).2]
          · cases success
  | random success =>
      unfold rdrandSetAesRandomKey at success ⊢
      simp only at success ⊢
      split at success
      · next allocated =>
          rw [if_pos allocated]
          refine generation _ ?_ ?_
          · rw [(keysAllocate_spec ssl allocated).2]
          · rw [(keysAllocate_spec ssl allocated).2]
      · cases success

/-- Setting keys leaves the context keyed as the log says. -/
theorem JustSet.loggedKey
    {ssl : OpenSsl}
    {amount keyLength : Nat}
    {keysType : KeysType}
    {state : AesState}
    (set : JustSet ssl amount keyLength keysType state) :
    state.LoggedKey :=
  set.of_fresh AesState.LoggedKey
    (fun fresh unkeyed _ => (keyToOpenssl_masks ssl fresh).kept (.inl unkeyed))
    (fun fresh unkeyed _ => (keyGenerate_masks ssl fresh).kept (.inl unkeyed))

/-- A keying leaves a keystream of which nothing has been used. -/
theorem keyToOpenssl_unused
    (ssl : OpenSsl)
    {state : AesState}
    (unused : state.cfg.en.used = 0) :
    (keyToOpenssl ssl state).state.cfg.en.used = 0 := by
  unfold keyToOpenssl
  simp only
  split
  · rfl
  · exact unused

theorem keyGenerate_unused
    (ssl : OpenSsl)
    {state : AesState}
    (unused : state.cfg.en.used = 0) :
    (keyGenerate ssl state).state.cfg.en.used = 0 := by
  unfold keyGenerate
  simp only
  split
  · exact unused
  · split
    · exact unused
    · exact keyToOpenssl_unused ssl unused

/-- Setting keys leaves a keystream of which nothing has been used. -/
theorem JustSet.unused
    {ssl : OpenSsl}
    {amount keyLength : Nat}
    {keysType : KeysType}
    {state : AesState}
    (set : JustSet ssl amount keyLength keysType state) :
    state.cfg.en.used = 0 :=
  set.of_fresh (fun state => state.cfg.en.used = 0)
    (fun _ _ unused => keyToOpenssl_unused ssl unused)
    (fun _ _ unused => keyGenerate_unused ssl unused)

/--
In every run of the encrypting functions, all bytes that are masked, payload
or not, have different places in the keystreams of the keyings, each is masked
with the byte at its place, and what is written is masked.  A byte of a
keystream masks two of them exactly where two keyings that mask anything take
the same key and nonce.
-/
theorem runCalls_keystreams
    {ssl : OpenSsl}
    {amount keyLength : Nat}
    {keysType : KeysType}
    {start : AesState}
    (set : JustSet ssl amount keyLength keysType start)
    (device : Device)
    (buffer : StackBuffer)
    (position : Nat)
    (calls : List AesCall) :
    let run : AesRun := { position := position, state := start }
    let masked := runMasks ssl device buffer calls run
    let log := (runCalls ssl device buffer calls run).state.log
    (masked.map Masked.place).Nodup ∧
      ((masked.map (Masked.source log)).Nodup ↔
        KeyingsDiffer log masked) ∧
      (∀ byte ∈ masked, byte.By ssl log) ∧
      (runWritten ssl device buffer calls run).Sublist
        (masked.map Masked.cipher) := by
  intro run masked log
  have masks := runCalls_masks ssl device buffer calls run
  refine
    ⟨masks.ticks.nodup, ?_, masks.by_keystream set.loggedKey,
      runWritten_sublist ssl device buffer calls run⟩
  have symbols :=
    masks.ticks.nodup_symbols_iff (keyingAt log) set.unused
  rw [List.map_map] at symbols
  refine symbols.trans ?_
  simp only [List.forall_mem_map]
  rfl

/--
A buffer that is encrypted with the first key, and bytes of the device: the
two keyings differ, and no byte of a keystream is used twice.
-/
theorem runCalls_keystreams_twoKeys :
    let calls : List AesCall :=
      [.encBuffer [1, 2, 3], .getBytesAesCtr 5000 10]
    (loggedKeyings
        (runCalls .sample .counting .zeroed calls
          { position := 0, state := twoKeys .sample }).state.log).length =
        2 ∧
      ((runMasks .sample .counting .zeroed calls
          { position := 0, state := twoKeys .sample }).map
        (Masked.source
          (runCalls .sample .counting .zeroed calls
            { position := 0
              state := twoKeys .sample }).state.log)).Nodup := by
  intro calls
  obtain ⟨_, reuse, made, _⟩ :=
    runCalls_keystreams twoKeys_justSet .counting .zeroed 0 calls
  have keyings :
      (loggedKeyings
          (runCalls .sample .counting .zeroed calls
            { position := 0
              state := twoKeys .sample }).state.log).length =
          2 ∧
        (loggedKeyings
          (runCalls .sample .counting .zeroed calls
            { position := 0
              state := twoKeys .sample }).state.log).Nodup := by
    decide +kernel
  exact ⟨keyings.1, reuse.mpr (.of_nodup keyings.2 made)⟩

/-- The library of `OpenSsl.sample`, where two rotations of a key fail. -/
def OpenSsl.stuck : OpenSsl :=
  { OpenSsl.sample with
    encryptOk := fun call => decide (call ∉ [2, 3, 7, 8]) }

/-- Rotations that fail may leave one key and nonce to two keyings. -/
example :
    ¬(loggedKeyings
        (runCalls .stuck .counting .zeroed [.getBytesAesCtr 12288 10]
          { position := 0, state := twoKeys .stuck }).state.log).Nodup := by
  decide +kernel

end RdRand
