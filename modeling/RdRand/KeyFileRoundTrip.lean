import RdRand.HexToByte
import RdRand.KeyLengths
import RdRand.KeyLineScan

namespace RdRand

/-!
# Key files round-trip

A file that spells pairs of keys and nonces, one pair a line, is loaded as
these pairs, in their order and with nothing lost.
-/

open ControlLoop Hexadecimal

/-- A line that spells a key and a nonce of half its length. -/
theorem loadKeyLine_spells
    {digits : List Char}
    {key nonce : List Byte}
    (spelled : Spells digits (key ++ nonce))
    (nonempty : 0 < nonce.length)
    (half : key.length = 2 * nonce.length)
    (fits : digits.length ≤ rdrandMaxKeyLength * 2 + 1)
    (rest : List Char)
    (keyBefore nonceBefore : List Byte)
    (keyLen nonceLen : Nat) :
    loadKeyLine (digits ++ '\n' :: rest) keyBefore nonceBefore
        keyLen nonceLen =
      { result := .ok
        key := KeyArray.overwrite key keyBefore
        keyLen := key.length
        nonce := KeyArray.overwrite nonce nonceBefore
        nonceLen := nonce.length
        rest := rest
        unknown := none } := by
  have length : digits.length = 6 * nonce.length := by
    rw [spelled.length, List.length_append, half]
    omega
  have digitLine : DigitLine key.length digits :=
    { digits := fun c member =>
        (isHexDigit_iff_digitValue c).mpr (spelled.isDigit c member)
      spans := by
        omega
      fits := fits }
  have small : rdrandMaxKeyLength * 2 + 1 < sizeModulus := by
    decide
  obtain ⟨keySpelled, nonceSpelled⟩ := spelled.split
  have keyBytes :=
    hexToByte_spells keySpelled (by omega)
      (digits.drop (2 * key.length))
  have nonceBytes := hexToByte_spells nonceSpelled (by omega) []
  rw [List.take_append_drop] at keyBytes
  rw [List.append_nil, ← half] at nonceBytes
  have nonceLenEq : key.length / 2 = nonce.length := by
    omega
  rw [loadKeyLine_digits digitLine (by omega), nonceLenEq, keyBytes,
    nonceBytes]

/-- At the end of the file there is no line. -/
theorem loadKeyLine_endOfFile
    (keyBefore nonceBefore : List Byte)
    (keyLen nonceLen : Nat) :
    (loadKeyLine [] keyBefore nonceBefore keyLen nonceLen).result =
      .eof := by
  simp [loadKeyLine, scanLine]

/--
A file that spells pairs of a 16-byte key and an 8-byte nonce, one a line,
with any number of empty lines.
-/
inductive SpellsKeys : List Char → List (List Byte × List Byte) → Prop
    where
  | nil : SpellsKeys [] []
  | emptyLine
      {file : List Char}
      {pairs : List (List Byte × List Byte)}
      (rest : SpellsKeys file pairs) :
      SpellsKeys ('\n' :: file) pairs
  | pair
      {digits file : List Char}
      {key nonce : List Byte}
      {pairs : List (List Byte × List Byte)}
      (keyLength : key.length = 16)
      (nonceLength : nonce.length = 8)
      (spelled : Spells digits (key ++ nonce))
      (rest : SpellsKeys file pairs) :
      SpellsKeys (digits ++ '\n' :: file) ((key, nonce) :: pairs)

/-- The keys and nonces of a file have the lengths its lines have. -/
theorem SpellsKeys.lengths
    {file : List Char}
    {pairs : List (List Byte × List Byte)}
    (spelled : SpellsKeys file pairs) :
    ∀ pair ∈ pairs, pair.1.length = 16 ∧ pair.2.length = 8 := by
  induction spelled with
  | nil =>
      intro pair member
      cases member
  | emptyLine _ inductionHypothesis =>
      exact inductionHypothesis
  | pair keyLength nonceLength _ _ inductionHypothesis =>
      intro pair member
      rcases List.mem_cons.mp member with rfl | inRest
      · exact ⟨keyLength, nonceLength⟩
      · exact inductionHypothesis pair inRest

/-- The pairs that some loaded strings hold. -/
structure Holds
    (load : KeyLoad)
    (pairs : List (List Byte × List Byte)) : Prop where
  keys : load.keys.map (List.take 16) = pairs.map Prod.fst
  nonces : load.nonces.map (List.take 8) = pairs.map Prod.snd
  firstLen : load.firstLen = if pairs = [] then 0 else 16

theorem Holds.amount
    {load : KeyLoad}
    {pairs : List (List Byte × List Byte)}
    (holds : Holds load pairs) :
    load.amount = pairs.length := by
  have length := congrArg List.length holds.keys
  rwa [List.length_map, List.length_map] at length

section Loop

variable
  {ssl : OpenSsl}
  (malloc : ∀ call, ssl.mallocOk call = true)
  (heap : Nat → List Byte)

include malloc

/-- An empty line adds no pair. -/
theorem loadKeysPass_empty
    {load : KeyLoad}
    {rest : List Char}
    {pairs : List (List Byte × List Byte)}
    (file : load.file = '\n' :: rest)
    (holds : Holds load pairs) :
    ∃ next,
      loadKeysPass ssl heap load = .again next ∧
        next.file = rest ∧
        Holds next pairs := by
  rw [loadKeysPass_allocates heap ⟨malloc _, malloc _⟩, file, loadKeyLine_empty]
  exact ⟨_, rfl, rfl, ⟨holds.keys, holds.nonces, holds.firstLen⟩⟩

/-- A line that spells a pair adds the pair. -/
theorem loadKeysPass_pair
    {load : KeyLoad}
    {digits rest : List Char}
    {key nonce : List Byte}
    {pairs : List (List Byte × List Byte)}
    (file : load.file = digits ++ '\n' :: rest)
    (keyLength : key.length = 16)
    (nonceLength : nonce.length = 8)
    (spelled : Spells digits (key ++ nonce))
    (holds : Holds load pairs) :
    ∃ next,
      loadKeysPass ssl heap load = .again next ∧
        next.file = rest ∧
        Holds next (pairs ++ [(key, nonce)]) := by
  have fits : digits.length ≤ rdrandMaxKeyLength * 2 + 1 := by
    rw [spelled.length, List.length_append, keyLength, nonceLength]
    decide
  have firstLen :
      (if load.firstLen = 0 then 16 else load.firstLen) = 16 := by
    rw [holds.firstLen]
    split <;> rfl
  have keyString := take_overwrite keyLength (heap load.aes.mallocCalls)
  have nonceString :=
    take_overwrite nonceLength (heap (load.aes.mallocCalls + 1))
  rw [loadKeysPass_allocates heap ⟨malloc _, malloc _⟩, file,
    loadKeyLine_spells spelled (by omega) (by omega) fits, keyLength]
  simp only [addKeyLine, firstLen]
  refine ⟨_, rfl, rfl, ?_⟩
  exact
    { keys := by
        rw [List.map_append, holds.keys, List.map_append,
          List.map_singleton, List.map_singleton, keyString]
      nonces := by
        rw [List.map_append, holds.nonces, List.map_append,
          List.map_singleton, List.map_singleton, nonceString]
      firstLen := by
        simp }

/-- The end of the file leaves the loop. -/
theorem loadKeysPass_endOfFile
    {load : KeyLoad}
    {pairs : List (List Byte × List Byte)}
    (file : load.file = [])
    (holds : Holds load pairs) :
    ∃ final,
      loadKeysPass ssl heap load = .leave .eof final ∧
        Holds final pairs := by
  have result :=
    loadKeyLine_endOfFile (heap load.aes.mallocCalls)
      (heap (load.aes.mallocCalls + 1)) load.keyLen load.nonceLen
  rw [loadKeysPass_allocates heap ⟨malloc _, malloc _⟩, file]
  unfold addKeyLine
  simp only [result]
  exact ⟨_, rfl, ⟨holds.keys, holds.nonces, holds.firstLen⟩⟩

/-- The loop collects the pairs a file spells, in their order. -/
theorem loadKeysLoop_spells
    {file : List Char}
    {pairs : List (List Byte × List Byte)}
    (spelled : SpellsKeys file pairs)
    {before : List (List Byte × List Byte)}
    {load : KeyLoad}
    (atFile : load.file = file)
    (holds : Holds load before)
    {passes : Nat}
    (enough : file.length < passes) :
    ∃ final,
      (loadKeysLoop ssl heap).run passes load = .left .eof final ∧
        Holds final (before ++ pairs) := by
  obtain ⟨passes, rfl⟩ : ∃ fewer, passes = fewer + 1 :=
    ⟨passes - 1, by omega⟩
  induction spelled generalizing before load passes with
  | nil =>
      obtain ⟨final, pass, collected⟩ :=
        loadKeysPass_endOfFile malloc heap atFile holds
      rw [List.append_nil]
      exact
        ⟨final, Loop.run_leave rfl pass passes, collected⟩
  | emptyLine rest inductionHypothesis =>
      obtain ⟨next, pass, nextFile, collected⟩ :=
        loadKeysPass_empty malloc heap atFile holds
      rw [List.length_cons] at enough
      obtain ⟨fewer, rfl⟩ : ∃ fewer, passes = fewer + 1 :=
        ⟨passes - 1, by omega⟩
      rw [Loop.run_again rfl pass]
      exact
        inductionHypothesis nextFile collected fewer (by omega)
  | pair keyLength nonceLength digits rest inductionHypothesis =>
      obtain ⟨next, pass, nextFile, collected⟩ :=
        loadKeysPass_pair malloc heap atFile keyLength nonceLength
          digits holds
      rw [List.length_append, List.length_cons] at enough
      obtain ⟨fewer, rfl⟩ : ∃ fewer, passes = fewer + 1 :=
        ⟨passes - 1, by omega⟩
      rw [Loop.run_again rfl pass]
      obtain ⟨final, run, whole⟩ :=
        inductionHypothesis nextFile collected fewer (by omega)
      rw [List.append_assoc, List.singleton_append] at whole
      exact ⟨final, run, whole⟩

end Loop

/-- Copying as many strings as there are zeroed slots. -/
theorem copyKeys_zeroed
    {given : List (List Byte)}
    {amount : Nat}
    (count : given.length = amount)
    (length keyLength : Nat)
    (identity : Option Nat) :
    (copyKeys given length
      { identity := identity
        slots :=
          List.replicate amount (List.replicate keyLength 0) }).slots =
      (given.map (List.take length)).map fun string =>
        string ++ List.replicate (keyLength - string.length) 0 := by
  apply List.ext_getElem
  · simp [copyKeys, count]
  · intro index inCopy inGiven
    simp only [copyKeys, List.length_mapIdx, List.length_replicate]
      at inCopy
    rw [← count] at inCopy
    simp [copyKeys, KeyArray.overwrite, List.getD_eq_getElem?_getD,
      List.getElem?_eq_getElem inCopy]

/-- What `load_keys` leaves in `AES_CFG` for some pairs. -/
structure LoadedPairs
    (pairs : List (List Byte × List Byte))
    (state : AesState) : Prop where
  amount : state.cfg.keys.amount = pairs.length
  inBounds : state.cfg.keys.amount ≤ maxKeys
  keys : state.cfg.keys.keys.slots = pairs.map Prod.fst
  nonces :
    state.cfg.keys.nonces.slots =
      pairs.map fun pair => pair.2 ++ List.replicate 8 0
  index : state.cfg.keys.index = 0
  nextCounter : state.cfg.keys.nextCounter = maxCounter
  keyed :
    state.cfg.en.keyed =
      some (state.cfg.keys.keys.slot 0, state.cfg.keys.nonces.slot 0)
  unused : state.cfg.en.used = 0

section RoundTrip

variable
  {ssl : OpenSsl}
  (malloc : ∀ call, ssl.mallocOk call = true)
  (init : ∀ call, ssl.initOk call = true)

include malloc init

/-- Pairs that were collected are set. -/
theorem setLoadedKeys_holds
    {load : KeyLoad}
    {pairs : List (List Byte × List Byte)}
    (holds : Holds load pairs)
    (keyLengths : ∀ pair ∈ pairs, pair.1.length = 16)
    (nonceLengths : ∀ pair ∈ pairs, pair.2.length = 8)
    (nonempty : pairs ≠ [])
    (bounded : pairs.length ≤ maxKeys) :
    (setLoadedKeys ssl load).result = .ok ∧
      LoadedPairs pairs (setLoadedKeys ssl load).state := by
  have positive : 0 < load.amount := by
    rw [holds.amount]
    exact List.length_pos_iff.mpr nonempty
  have firstLen : load.firstLen = 16 := by
    rw [holds.firstLen, if_neg nonempty]
  have success :=
    keysAllocate_success malloc (show isPowerOfTwo 16 = true by decide)
      (Nat.ne_of_gt positive) (resetKeys .keysGiven maxCounter load.aes)
  obtain ⟨_, allocated⟩ := keysAllocate_spec ssl success
  have keyCount : load.keys.length = load.amount := rfl
  have nonceCount : load.nonces.length = load.amount := by
    have length := congrArg List.length holds.nonces
    rw [List.length_map, List.length_map] at length
    rw [length, holds.amount]
  unfold setLoadedKeys rdrandSetAesKeys
  rw [if_neg (Nat.ne_of_gt positive), firstLen]
  simp only [success, allocated, keyToOpenssl, init, if_true]
  refine ⟨rfl, ?_⟩
  exact
    { amount := holds.amount
      inBounds := holds.amount ▸ bounded
      keys := by
        change
          (copyKeys load.keys 16
            { identity := _
              slots :=
                List.replicate load.amount
                  (List.replicate 16 0) }).slots = _
        rw [copyKeys_zeroed keyCount, holds.keys, List.map_map]
        apply List.map_congr_left
        intro pair member
        simp [keyLengths pair member]
      nonces := by
        change
          (copyKeys load.nonces (16 / 2)
            { identity := _
              slots :=
                List.replicate load.amount
                  (List.replicate 16 0) }).slots = _
        rw [copyKeys_zeroed nonceCount, holds.nonces, List.map_map]
        apply List.map_congr_left
        intro pair member
        simp [nonceLengths pair member]
      index := rfl
      nextCounter := rfl
      keyed := rfl
      unused := rfl }

/--
A file that spells 1 to `MAX_KEYS` pairs of keys and nonces is loaded as these
pairs, whatever the heap holds before.
-/
theorem loadKeys_spells
    (heap : Nat → List Byte)
    {file : List Char}
    {pairs : List (List Byte × List Byte)}
    (spelled : SpellsKeys file pairs)
    (nonempty : pairs ≠ [])
    (bounded : pairs.length ≤ maxKeys)
    (state : AesState) :
    ∃ loaded,
      loadKeys ssl heap file state = some loaded ∧
        loaded.result = .ok ∧
        LoadedPairs pairs loaded.state := by
  have fresh :
      Holds
        { file := file
          keyLen := 0
          nonceLen := 0
          firstLen := 0
          keys := []
          nonces := []
          unknown := none
          aes := state }
        [] :=
    ⟨rfl, rfl, rfl⟩
  obtain ⟨final, run, collected⟩ :=
    loadKeysLoop_spells malloc heap spelled rfl fresh
      (Nat.lt_succ_self _)
  rw [List.nil_append] at collected
  have set :=
    setLoadedKeys_holds malloc init collected
      (fun pair member => (spelled.lengths pair member).1)
      (fun pair member => (spelled.lengths pair member).2)
      nonempty bounded
  refine ⟨setLoadedKeys ssl final, ?_, set⟩
  unfold loadKeys
  rw [run]

end RoundTrip

/-- Two lines with an empty line between them, in upper and lower case. -/
theorem loadKeys_spells_twoPairs :
    ∃ loaded,
      loadKeys .sample (fun _ => List.replicate 32 7)
          ((List.replicate 24 ['1', 'a']).flatten ++
            '\n' :: '\n' ::
              ((List.replicate 24 ['B', '2']).flatten ++ ['\n']))
          aesStart = some loaded ∧
        loaded.result = .ok ∧
        LoadedPairs
          [(List.replicate 16 0x1a, List.replicate 8 0x1a),
            (List.replicate 16 0xb2, List.replicate 8 0xb2)]
          loaded.state := by
  have first :
      Spells (List.replicate 24 ['1', 'a']).flatten
        (List.replicate 16 0x1a ++ List.replicate 8 0x1a) := by
    repeat
      first
        | exact .nil
        | refine .byte (by decide) (by decide) ?_
  have second :
      Spells (List.replicate 24 ['B', '2']).flatten
        (List.replicate 16 0xb2 ++ List.replicate 8 0xb2) := by
    repeat
      first
        | exact .nil
        | refine .byte (by decide) (by decide) ?_
  exact
    loadKeys_spells (fun _ => rfl) (fun _ => rfl)
      (fun _ => List.replicate 32 7)
      (.pair (by decide) (by decide) first
        (.emptyLine (.pair (by decide) (by decide) second .nil)))
      (by decide) (by decide) aesStart

end RdRand
