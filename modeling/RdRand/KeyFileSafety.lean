import RdRand.KeyFileMemory

namespace RdRand

/-!
# What loading keys does to its blocks

The loop of `load_keys` misuses no block exactly if every pass stays within
the arrays on the stack.  Between two passes the strings of the lines that
were added are allocated, and those of empty lines, which nothing was written
to and nobody frees.
-/

open ControlLoop MemoryBlocks

/-- A string for a key or a nonce is allocated. -/
def LineString (status : Status) : Prop :=
  ∃ secret,
    secret ≤ rdrandMaxKeyLength ∧
      status = .live rdrandMaxKeyLength secret false

/-- A string that nothing was written to. -/
def blankString : Status :=
  .live rdrandMaxKeyLength 0 false

theorem blankString_lineString : LineString blankString :=
  ⟨0, Nat.zero_le _, rfl⟩

/-- A string is one of those of some lines. -/
def OfLine (calls : List Nat) (call : Nat) : Prop :=
  ∃ line ∈ calls, call = line ∨ call = line + 1

@[simp] theorem ofLine_nil (call : Nat) : ¬ OfLine [] call := by
  rintro ⟨_, member, _⟩
  cases member

@[simp] theorem ofLine_append (first second : List Nat) (call : Nat) :
    OfLine (first ++ second) call ↔
      OfLine first call ∨ OfLine second call := by
  simp [OfLine, or_and_right, exists_or]

@[simp] theorem ofLine_singleton (line call : Nat) :
    OfLine [line] call ↔ call = line ∨ call = line + 1 := by
  simp [OfLine]

/--
What is allocated between two passes over the loop, for the lines that were
added and for those that were empty.
-/
structure LinesHeld
    (load : KeyLoad)
    (calls blanks : List Nat)
    (memory : Heap LoadBlock) : Prop where
  fresh :
    ∀ call,
      load.aes.mallocCalls ≤ call →
      memory (.line call) = .unused ∧ memory (.buf call) = .unused
  keys : (memory .keys).Allocated (pointerSize * maxKeys)
  nonces : (memory .nonces).Allocated (pointerSize * maxKeys)
  added :
    ∀ call, OfLine calls call → LineString (memory (.line call))
  blank :
    ∀ call, OfLine blanks call → memory (.line call) = blankString
  live :
    ∀ call,
      (memory (.line call)).isLive = true →
      OfLine calls call ∨ OfLine blanks call
  earlier :
    ∀ call,
      OfLine calls call ∨ OfLine blanks call →
      call < load.aes.mallocCalls
  apart : calls.Pairwise fun first second => first + 1 < second
  different : ∀ call, OfLine blanks call → ¬ OfLine calls call
  within : load.amount ≤ maxKeys

/-- What reading a line does to the blocks. -/
structure LineRead
    (file : List Char)
    (call : Nat)
    (memory middle : Heap LoadBlock) : Prop where
  others :
    ∀ block,
      block ≠ .line call →
      block ≠ .line (call + 1) →
      block ≠ .buf call →
      middle block = memory block
  key : LineString (middle (.line call))
  nonce : LineString (middle (.line (call + 1)))
  blank :
    ¬ (scanLine 0 file).Converts →
    middle (.line call) = blankString ∧
      middle (.line (call + 1)) = blankString

section Reading

variable
  {file : List Char}
  {call : Nat}
  {memory : Heap LoadBlock}

/-- No more bytes are written than were asked for. -/
theorem hexToByteLoop_length_le
    (bytes : Nat)
    (hex : List Char) :
    (hexToByteLoop bytes hex).written.length ≤ bytes := by
  induction bytes generalizing hex with
  | zero =>
      exact Nat.le_refl 0
  | succ bytes inductionHypothesis =>
      unfold hexToByteLoop
      split
      · exact Nat.zero_le _
      · exact Nat.succ_le_succ (inductionHypothesis (hex.drop 2))

theorem hexToByte_length_le
    (hex : List Char)
    (hexLength byteLength : Nat) :
    (hexToByte hex hexLength byteLength).written.length ≤
      byteLength := by
  unfold hexToByte
  split
  · exact Nat.zero_le _
  · exact hexToByteLoop_length_le byteLength hex

/-- All digits are in `buf` where the stores are. -/
theorem scanLine_length_le
    (inBounds :
      ∀ index ∈ scanStores 0 file, index < 2 * rdrandMaxKeyLength) :
    (scanLine 0 file).buf.length ≤ 2 * rdrandMaxKeyLength := by
  rw [scanStores_eq, ← List.range_eq_range'] at inBounds
  by_contra overlong
  exact
    Nat.lt_irrefl _
      (inBounds _ (List.mem_range.mpr (Nat.lt_of_not_le overlong)))

/-- A conversion within `buf` writes to its string. -/
theorem hexToByteMemory_run
    {buf target : LoadBlock}
    {index inBuf : Nat}
    {converted : HexResult}
    (array : memory buf = .live (2 * rdrandMaxKeyLength) inBuf false)
    (string : LineString (memory target))
    (reads :
      index + 2 * converted.written.length ≤ 2 * rdrandMaxKeyLength) :
    ∃ after,
      run (hexToByteMemory buf target index converted) memory =
          some (Function.update memory target after) ∧
        LineString after := by
  obtain ⟨secret, within, held⟩ := string
  have fits : converted.written.length ≤ rdrandMaxKeyLength := by
    omega
  have loaded :
      history [.load (index + 2 * converted.written.length)]
          (memory buf) =
        some (memory buf) := by
    rw [array, history, Action.perform, if_pos reads]
    rfl
  refine
    ⟨.live rdrandMaxKeyLength (max secret converted.written.length)
        false, ?_, _, Nat.max_le.mpr ⟨within, fits⟩, rfl⟩
  unfold hexToByteMemory
  rw [run_on_append loaded, Function.update_eq_self, run_on, held,
    history, Action.perform, if_pos fits]
  rfl

/-- A line that fits into `buf` is read within its blocks. -/
theorem loadKeyLine_run
    (key : memory (.line call) = blankString)
    (nonce : memory (.line (call + 1)) = blankString)
    (buf : memory (.buf call) = .unused)
    (inBounds :
      ∀ index ∈ scanStores 0 file, index < 2 * rdrandMaxKeyLength) :
    ∃ middle,
      run (loadKeyLineMemory file call) memory = some middle ∧
        LineRead file call memory middle := by
  obtain ⟨secret, stored⟩ := @history_stores _ 0 false _ inBounds
  have opened :
      history
          (.allocate (2 * rdrandMaxKeyLength) ::
            (scanStores 0 file).map fun index => .store (index + 1))
          (memory (.buf call)) =
        some (.live (2 * rdrandMaxKeyLength) secret false) := by
    rw [buf]
    exact stored
  have keyString : LineString (memory (.line call)) := by
    rw [key]
    exact blankString_lineString
  have nonceString : LineString (memory (.line (call + 1))) := by
    rw [nonce]
    exact blankString_lineString
  unfold loadKeyLineMemory
  simp only
  rw [run_on_append opened]
  split
  · next converts =>
      have digits := scanLine_length_le inBounds
      generalize (scanLine 0 file).buf = text at digits ⊢
      have keyBytes :=
        hexToByte_length_le text (text.length / 3 * 2)
          (text.length / 3 * 2 / 2)
      have nonceBytes :=
        hexToByte_length_le (text.drop (text.length / 3 * 2))
          (text.length / 3) (text.length / 3 / 2)
      obtain ⟨keyAfter, keyDone, keyWritten⟩ :=
        @hexToByteMemory_run
          (Function.update memory (.buf call)
            (.live (2 * rdrandMaxKeyLength) secret false))
          (.buf call) (.line call) 0 secret
          (hexToByte text (text.length / 3 * 2)
            (text.length / 3 * 2 / 2))
          (Function.update_self _ _ _) (by simpa using keyString)
          (by omega)
      obtain ⟨nonceAfter, nonceDone, nonceWritten⟩ :=
        @hexToByteMemory_run
          (Function.update
            (Function.update memory (.buf call)
              (.live (2 * rdrandMaxKeyLength) secret false))
            (.line call) keyAfter)
          (.buf call) (.line (call + 1)) (text.length / 3 * 2) secret
          (hexToByte (text.drop (text.length / 3 * 2)) (text.length / 3)
            (text.length / 3 / 2))
          (by simp) (by simpa using nonceString) (by omega)
      rw [run_append, keyDone, Option.bind_some]
      refine ⟨_, nonceDone, ?_, ?_, ?_, ?_⟩
      · intro block notKey notNonce notBuf
        rw [Function.update_of_ne notNonce,
          Function.update_of_ne notKey, Function.update_of_ne notBuf]
      · simpa using keyWritten
      · simpa using nonceWritten
      · exact fun unconverted => absurd converts unconverted
  · next plain =>
      refine ⟨_, rfl, ?_, ?_, ?_, ?_⟩
      · intro block _ _ notBuf
        exact Function.update_of_ne notBuf _ _
      · simpa using keyString
      · simpa using nonceString
      · intro _
        simpa using ⟨key, nonce⟩

/-- What reading a line leaves in the blocks of others. -/
theorem LineRead.apart
    {middle : Heap LoadBlock}
    (read : LineRead file call memory middle) :
    (∀ other,
        other ≠ call →
        other ≠ call + 1 →
        middle (.line other) = memory (.line other) ∧
          middle (.buf other) = memory (.buf other)) ∧
      middle .keys = memory .keys ∧
      middle .nonces = memory .nonces := by
  refine ⟨?_, read.others _ (by simp) (by simp) (by simp),
    read.others _ (by simp) (by simp) (by simp)⟩
  intro other notKey notNonce
  exact
    ⟨read.others _ (by simp [notKey]) (by simp [notNonce]) (by simp),
      read.others _ (by simp) (by simp) (by simp [notKey])⟩

/-- A digit too many misuses `buf`. -/
theorem loadKeyLine_misuse
    (buf : memory (.buf call) = .unused)
    (beyond :
      ¬ ∀ index ∈ scanStores 0 file, index < 2 * rdrandMaxKeyLength) :
    run (loadKeyLineMemory file call) memory = none := by
  push Not at beyond
  unfold loadKeyLineMemory
  refine run_on_misuse ?_ _
  rw [buf]
  exact history_stores_beyond beyond

/-- Only a line of a key is converted. -/
theorem loadKeyLine_converts
    (converts : (scanLine 0 file).Converts)
    (key nonce : List Byte)
    (keyLen nonceLen : Nat) :
    (loadKeyLine file key nonce keyLen nonceLen).result = .ok ∧
      (loadKeyLine file key nonce keyLen nonceLen).keyLen ≠ 0 := by
  obtain ⟨newline, whole, some⟩ := converts
  unfold loadKeyLine
  simp only [newline, whole, some, ne_eq, not_true_eq_false, if_false,
    reduceCtorEq, true_and]
  omega

end Reading

section Passes

variable
  {ssl : OpenSsl}
  {heap : Nat → List Byte}
  {load next : KeyLoad}

/-- What a line leaves, where it does not leave the loop with an error. -/
theorem addKeyLine_fields (line : KeyLine) (load : KeyLoad) :
    (∀ next,
        addKeyLine line load = .again next →
        next.aes = load.aes ∧
          next.keyLen = line.keyLen ∧
          next.amount =
            load.amount + if next.keyLen = 0 then 0 else 1) ∧
      ∀ final,
        addKeyLine line load = .leave .eof final → line.result = .eof := by
  unfold addKeyLine
  simp only
  split
  · refine ⟨nofun, ?_⟩
    rintro _ same
    exact (Pass.leave.inj same).1
  · split
    · next skip =>
        refine ⟨?_, nofun⟩
        rintro _ ⟨⟩
        exact ⟨rfl, rfl, by rw [if_pos skip]; rfl⟩
    · next added =>
        split
        · exact ⟨nofun, nofun⟩
        · generalize
            (if load.firstLen = 0 then _ else load.firstLen) = firstLen
          split
          · exact ⟨nofun, nofun⟩
          · refine ⟨?_, nofun⟩
            rintro _ ⟨⟩
            refine ⟨rfl, rfl, ?_⟩
            rw [if_neg added]
            exact List.length_append

/-- A pass that goes on makes two calls of `malloc`, and may add a key. -/
theorem loadKeysPass_fields
    (again : loadKeysPass ssl heap load = .again next) :
    next.aes = load.aesAfter 1 ∧
      next.amount =
        load.amount + if next.keyLen = 0 then 0 else 1 := by
  by_cases allocates : Allocates ssl load.aes.mallocCalls
  · rw [loadKeysPass_allocates heap allocates] at again
    obtain ⟨aes, _, amount⟩ := (addKeyLine_fields _ _).1 next again
    exact ⟨aes, amount⟩
  · rw [loadKeysPass_failed heap allocates] at again
    cases again

/-- A pass that converts a line is not one over an empty or a last line. -/
theorem loadKeysPass_converts
    (converts : (scanLine 0 load.file).Converts) :
    (∀ final, loadKeysPass ssl heap load ≠ .leave .eof final) ∧
      ∀ next,
        loadKeysPass ssl heap load = .again next → next.keyLen ≠ 0 := by
  by_cases allocates : Allocates ssl load.aes.mallocCalls
  · rw [loadKeysPass_allocates heap allocates]
    obtain ⟨ok, some⟩ :=
      loadKeyLine_converts converts (heap load.aes.mallocCalls)
        (heap (load.aes.mallocCalls + 1)) load.keyLen load.nonceLen
    obtain ⟨again, eof⟩ :=
      addKeyLine_fields
        (loadKeyLine load.file (heap load.aes.mallocCalls)
          (heap (load.aes.mallocCalls + 1)) load.keyLen load.nonceLen)
        { load with aes := load.aesAfter 1 }
    refine ⟨?_, ?_⟩
    · intro final left
      rw [eof final left] at ok
      cases ok
    · intro next goesOn
      rw [(again next goesOn).2.1]
      exact some
  · rw [loadKeysPass_failed heap allocates]
    exact ⟨nofun, nofun⟩

end Passes

/-- What became of the strings of a line. -/
inductive LineKept
    (call : Nat)
    (final : Heap LoadBlock) : List Nat → List Nat → Prop where
  | freed
      (strings :
        ∀ string,
          string = call ∨ string = call + 1 →
          final (.line string) = .released) :
      LineKept call final [] []
  | blank
      (strings :
        ∀ string,
          string = call ∨ string = call + 1 →
          final (.line string) = blankString) :
      LineKept call final [] [call]
  | added
      (strings :
        ∀ string,
          string = call ∨ string = call + 1 →
          LineString (final (.line string))) :
      LineKept call final [call] []

section Step

variable
  {load later : KeyLoad}
  {calls blanks added skipped : List Nat}
  {call : Nat}
  {memory final : Heap LoadBlock}

/-- A line is added, or it is empty, or neither. -/
theorem LineKept.ofLine
    (kept : LineKept call final added skipped)
    {string : Nat}
    (ofLine : OfLine added string ∨ OfLine skipped string) :
    string = call ∨ string = call + 1 := by
  cases kept with
  | freed _ =>
      simp at ofLine
  | blank _ =>
      simpa using ofLine
  | added _ =>
      simpa using ofLine

/-- The strings of a line that is added hold its key and its nonce. -/
theorem LineKept.lineString
    (kept : LineKept call final added skipped)
    {string : Nat}
    (ofLine : OfLine added string) :
    LineString (final (.line string)) := by
  cases kept with
  | freed _ =>
      exact absurd ofLine (ofLine_nil string)
  | blank _ =>
      exact absurd ofLine (ofLine_nil string)
  | added strings =>
      exact strings string ((ofLine_singleton _ _).mp ofLine)

/-- Nothing was written to the strings of an empty line. -/
theorem LineKept.untouched
    (kept : LineKept call final added skipped)
    {string : Nat}
    (ofLine : OfLine skipped string) :
    final (.line string) = blankString := by
  cases kept with
  | freed _ =>
      exact absurd ofLine (ofLine_nil string)
  | blank strings =>
      exact strings string ((ofLine_singleton _ _).mp ofLine)
  | added _ =>
      exact absurd ofLine (ofLine_nil string)

/-- A string of the line that is left belongs to a line that was kept. -/
theorem LineKept.of_live
    (kept : LineKept call final added skipped)
    {string : Nat}
    (own : string = call ∨ string = call + 1)
    (live : (final (.line string)).isLive = true) :
    OfLine added string ∨ OfLine skipped string := by
  cases kept with
  | freed strings =>
      rw [strings string own] at live
      cases live
  | blank _ =>
      exact .inr ((ofLine_singleton _ _).mpr own)
  | added _ =>
      exact .inl ((ofLine_singleton _ _).mpr own)

/-- A line is not both added and empty. -/
theorem LineKept.different
    (kept : LineKept call final added skipped)
    {string : Nat}
    (isSkipped : OfLine skipped string) :
    ¬ OfLine added string := by
  cases kept with
  | freed _ =>
      exact ofLine_nil string
  | blank _ =>
      exact ofLine_nil string
  | added _ =>
      exact absurd isSkipped (ofLine_nil string)

/-- At most one line is added. -/
theorem LineKept.pairwise
    (kept : LineKept call final added skipped)
    (relation : Nat → Nat → Prop) :
    added.Pairwise relation := by
  cases kept with
  | added _ =>
      exact List.pairwise_singleton _ _
  | _ =>
      exact .nil

/-- What a pass leaves where it has kept to its own blocks. -/
theorem LinesHeld.step
    (held : LinesHeld load calls blanks memory)
    (mallocCalls : later.aes.mallocCalls = load.aes.mallocCalls + 2)
    (others :
      ∀ call,
        call ≠ load.aes.mallocCalls →
        call ≠ load.aes.mallocCalls + 1 →
        final (.line call) = memory (.line call) ∧
          final (.buf call) = memory (.buf call))
    (keys : (final .keys).Allocated (pointerSize * maxKeys))
    (nonces : (final .nonces).Allocated (pointerSize * maxKeys))
    (kept : LineKept load.aes.mallocCalls final added skipped)
    (within : later.amount ≤ maxKeys) :
    LinesHeld later (calls ++ added) (blanks ++ skipped) final := by
  have before :
      ∀ {call},
        OfLine calls call ∨ OfLine blanks call →
        call < load.aes.mallocCalls ∧
          final (.line call) = memory (.line call) := by
    intro call ofLine
    have earlier := held.earlier call ofLine
    exact ⟨earlier, (others call (by omega) (by omega)).1⟩
  refine ⟨?_, keys, nonces, ?_, ?_, ?_, ?_, ?_, ?_, within⟩
  · intro call fresh
    rw [mallocCalls] at fresh
    obtain ⟨line, buf⟩ := others call (by omega) (by omega)
    rw [line, buf]
    exact held.fresh call (by omega)
  · intro call ofLine
    rcases (ofLine_append _ _ _).mp ofLine with old | new
    · rw [(before (.inl old)).2]
      exact held.added call old
    · exact kept.lineString new
  · intro call ofLine
    rcases (ofLine_append _ _ _).mp ofLine with old | new
    · rw [(before (.inr old)).2]
      exact held.blank call old
    · exact kept.untouched new
  · intro call live
    simp only [ofLine_append]
    by_cases own :
        call = load.aes.mallocCalls ∨ call = load.aes.mallocCalls + 1
    · exact (kept.of_live own live).imp .inr .inr
    · obtain ⟨notKey, notNonce⟩ := not_or.mp own
      rw [(others call notKey notNonce).1] at live
      exact (held.live call live).imp .inl .inl
  · intro call ofLine
    rw [mallocCalls]
    simp only [ofLine_append] at ofLine
    rcases ofLine with (old | new) | (old | new)
    · exact Nat.lt_add_right 2 (before (.inl old)).1
    · have own := kept.ofLine (.inl new)
      omega
    · exact Nat.lt_add_right 2 (before (.inr old)).1
    · have own := kept.ofLine (.inr new)
      omega
  · refine List.pairwise_append.mpr ⟨held.apart, kept.pairwise _, ?_⟩
    intro first old second new
    have earlier :=
      held.earlier (first + 1) (.inl ⟨first, old, .inr rfl⟩)
    have own := kept.ofLine (.inl ⟨second, new, .inl rfl⟩)
    omega
  · intro call isBlank isAdded
    rcases (ofLine_append _ _ _).mp isBlank with blank | isSkipped
    · rcases (ofLine_append _ _ _).mp isAdded with old | new
      · exact held.different call blank old
      · have earlier := (before (.inr blank)).1
        have own := kept.ofLine (.inl new)
        omega
    · rcases (ofLine_append _ _ _).mp isAdded with old | new
      · have earlier := (before (.inl old)).1
        have own := kept.ofLine (.inr isSkipped)
        omega
      · exact kept.different isSkipped new

end Step

/-- The calls of `malloc` that made the strings of empty lines. -/
def skippedLines (ssl : OpenSsl) (heap : Nat → List Byte) :
    Nat → KeyLoad → List Nat
  | 0, _ => []
  | passes + 1, load =>
      match loadKeysPass ssl heap load with
      | .leave _ _ => []
      | .again next =>
          (if next.keyLen = 0 then [load.aes.mallocCalls] else []) ++
            skippedLines ssl heap passes next

section Keeping

variable
  {ssl : OpenSsl}
  {heap : Nat → List Byte}
  {load : KeyLoad}
  {calls blanks : List Nat}
  {memory middle : Heap LoadBlock}

/-- At the end of the file the strings of the line are freed. -/
theorem keepLine_eof
    {last : KeyLoad}
    (held : LinesHeld load calls blanks memory)
    (read : LineRead load.file load.aes.mallocCalls memory middle)
    (pass : loadKeysPass ssl heap load = .leave .eof last) :
    ∃ final,
      run (keepLineMemory load (.leave .eof last)) middle =
          some final ∧
        LinesHeld last calls blanks final := by
  have plain : ¬ (scanLine 0 load.file).Converts :=
    fun converts => (loadKeysPass_converts converts).1 last pass
  obtain ⟨key, nonce⟩ := read.blank plain
  obtain ⟨others, keys, nonces⟩ := read.apart
  have released : history [.release] blankString = some .released :=
    rfl
  refine
    ⟨Function.update
        (Function.update middle (.line load.aes.mallocCalls) .released)
        (.line (load.aes.mallocCalls + 1)) .released, ?_, ?_⟩
  · exact
      run_on_pair (by simp) (key ▸ released) (nonce ▸ released) []
  · have leaves := loadKeysPass_leaves heap pass
    suffices kept : LinesHeld last (calls ++ []) (blanks ++ []) _ by
      simpa using kept
    have amount : last.amount = load.amount := by
      rw [KeyLoad.amount, leaves.keys, KeyLoad.amount]
    refine
      held.step (by rw [leaves.aes]; rfl) ?_ ?_ ?_ (.freed ?_)
        (by rw [amount]; exact held.within)
    · intro other notKey notNonce
      simpa [notKey, notNonce] using others other notKey notNonce
    · simpa [keys] using held.keys
    · simpa [nonces] using held.nonces
    · rintro _ (rfl | rfl)
      · simp
      · simp

/-- The strings of a line that is added are kept, and those of another left. -/
theorem keepLine_again
    {next : KeyLoad}
    (held : LinesHeld load calls blanks memory)
    (read : LineRead load.file load.aes.mallocCalls memory middle)
    (pass : loadKeysPass ssl heap load = .again next)
    (fits : next.keyLen ≠ 0 → load.amount < maxKeys) :
    ∃ final,
      run (keepLineMemory load (.again next)) middle = some final ∧
        LinesHeld next
          (calls ++
            if next.keyLen = 0 then [] else [load.aes.mallocCalls])
          (blanks ++
            if next.keyLen = 0 then [load.aes.mallocCalls] else [])
          final := by
  obtain ⟨others, keys, nonces⟩ := read.apart
  obtain ⟨aes, amount⟩ := loadKeysPass_fields pass
  have mallocCalls :
      next.aes.mallocCalls = load.aes.mallocCalls + 2 := by
    rw [aes]
    rfl
  unfold keepLineMemory
  simp only
  split
  · next skip =>
      have plain : ¬ (scanLine 0 load.file).Converts :=
        fun converts =>
          (loadKeysPass_converts converts).2 next pass skip
      obtain ⟨key, nonce⟩ := read.blank plain
      rw [if_pos skip] at amount
      refine
        ⟨middle, rfl,
          held.step mallocCalls others ?_ ?_ ?_
            (by rw [amount]; exact held.within)⟩
      · rw [keys]
        exact held.keys
      · rw [nonces]
        exact held.nonces
      · refine .blank ?_
        rintro _ (rfl | rfl)
        · exact key
        · exact nonce
  · next added =>
      have below := fits added
      rw [if_neg added] at amount
      have within :
          (Action.store (pointerSize * (load.amount + 1))).Uses
            (pointerSize * maxKeys) :=
        Nat.mul_le_mul_left _ below
      obtain ⟨keysAfter, keysDone, keysHeld⟩ :=
        within.perform (keys ▸ held.keys)
      obtain ⟨noncesAfter, noncesDone, noncesHeld⟩ :=
        within.perform (nonces ▸ held.nonces)
      have stored :
          ∀ {status after : Status},
            (Action.store (pointerSize * (load.amount + 1))).perform
                status =
              some after →
            history [.store (pointerSize * (load.amount + 1))] status =
              some after := by
        intro status after done
        rw [history, done]
        rfl
      refine
        ⟨Function.update (Function.update middle .keys keysAfter) .nonces
          noncesAfter, ?_,
          held.step mallocCalls ?_ ?_ ?_ ?_ (by rw [amount]; exact below)⟩
      · exact
          run_on_pair (by simp) (stored keysDone) (stored noncesDone) []
      · intro call notKey notNonce
        simpa using others call notKey notNonce
      · simpa using keysHeld
      · simpa using noncesHeld
      · refine .added ?_
        rintro _ (rfl | rfl)
        · simpa using read.key
        · simpa using read.nonce

end Keeping

section Loop

variable
  {ssl : OpenSsl}
  {heap : Nat → List Byte}
  (malloc : ∀ call, ssl.mallocOk call = true)
  {load : KeyLoad}
  {calls blanks : List Nat}
  {memory : Heap LoadBlock}

include malloc

/-- The strings of a line, and then what `load_key_line` does. -/
theorem mallocLines_run
    (held : LinesHeld load calls blanks memory)
    (rest : LoadEvents) :
    ∃ middle,
      run
          (mallocLine ssl load.aes.mallocCalls ++
            (mallocLine ssl (load.aes.mallocCalls + 1) ++ rest))
          memory =
        run rest middle ∧
      middle (.line load.aes.mallocCalls) = blankString ∧
      middle (.line (load.aes.mallocCalls + 1)) = blankString ∧
      ∀ block,
        block ≠ .line load.aes.mallocCalls →
        block ≠ .line (load.aes.mallocCalls + 1) →
        middle block = memory block := by
  have key := (held.fresh _ (Nat.le_refl _)).1
  have nonce := (held.fresh _ (Nat.le_succ _)).1
  have allocated :
      history [.allocate rdrandMaxKeyLength] .unused =
        some blankString :=
    rfl
  refine
    ⟨Function.update
        (Function.update memory (.line load.aes.mallocCalls) blankString)
        (.line (load.aes.mallocCalls + 1)) blankString,
      ?_, ?_, Function.update_self _ _ _, ?_⟩
  · unfold mallocLine
    rw [if_pos (malloc _), if_pos (malloc _)]
    exact
      run_on_pair (by simp) (key ▸ allocated) (nonce ▸ allocated) rest
  · rw [Function.update_of_ne (by simp), Function.update_self]
  · intro block notKey notNonce
    rw [Function.update_of_ne notNonce, Function.update_of_ne notKey]

/-- What a pass does to the blocks where `malloc` succeeds. -/
theorem loadKeysPassMemory_eq (load : KeyLoad) :
    loadKeysPassMemory ssl heap load =
      mallocLine ssl load.aes.mallocCalls ++
        (mallocLine ssl (load.aes.mallocCalls + 1) ++
          (loadKeyLineMemory load.file load.aes.mallocCalls ++
            keepLineMemory load (loadKeysPass ssl heap load))) := by
  unfold loadKeysPassMemory
  simp only [malloc, Bool.true_eq_false, or_self, if_false,
    List.append_assoc]

/-- A pass over a line that fits into `buf`, up to what follows the reading. -/
theorem loadKeysPass_reads
    (held : LinesHeld load calls blanks memory)
    (inBounds :
      ∀ index ∈ scanStores 0 load.file, index < 2 * rdrandMaxKeyLength)
    (rest : LoadEvents) :
    ∃ middle,
      run
          (mallocLine ssl load.aes.mallocCalls ++
            (mallocLine ssl (load.aes.mallocCalls + 1) ++
              (loadKeyLineMemory load.file load.aes.mallocCalls ++ rest)))
          memory =
        run rest middle ∧
      LineRead load.file load.aes.mallocCalls memory middle := by
  obtain ⟨allocated, through, key, nonce, others⟩ :=
    mallocLines_run malloc held
      (loadKeyLineMemory load.file load.aes.mallocCalls ++ rest)
  have buf : allocated (.buf load.aes.mallocCalls) = .unused := by
    rw [others _ (by simp) (by simp)]
    exact (held.fresh _ (Nat.le_refl _)).2
  obtain ⟨middle, reading, read⟩ :=
    loadKeyLine_run key nonce buf inBounds
  refine ⟨middle, ?_, ?_, read.key, read.nonce, read.blank⟩
  · rw [through, run_append, reading]
    rfl
  · intro block notKey notNonce notBuf
    rw [read.others block notKey notNonce notBuf,
      others block notKey notNonce]

/-- A pass that fits keeps to its blocks. -/
theorem loadKeysPass_run
    (held : LinesHeld load calls blanks memory)
    (fits : load.PassFits ssl heap) :
    ∃ final,
      run (loadKeysPassMemory ssl heap load) memory = some final ∧
        (∀ next,
          loadKeysPass ssl heap load = .again next →
          LinesHeld next
            (calls ++
              if next.keyLen = 0 then [] else [load.aes.mallocCalls])
            (blanks ++
              if next.keyLen = 0 then [load.aes.mallocCalls] else [])
            final) ∧
        ∀ last,
          loadKeysPass ssl heap load = .leave .eof last →
          LinesHeld last calls blanks final := by
  obtain ⟨middle, through, read⟩ :=
    loadKeysPass_reads malloc held fits.buffer
      (keepLineMemory load (loadKeysPass ssl heap load))
  rw [loadKeysPassMemory_eq malloc, through]
  cases pass : loadKeysPass ssl heap load with
  | leave failure last =>
      by_cases eof : failure = .eof
      · subst eof
        obtain ⟨final, freed, kept⟩ := keepLine_eof held read pass
        refine ⟨final, freed, nofun, ?_⟩
        rintro _ ⟨⟩
        exact kept
      · refine ⟨middle, ?_, nofun, ?_⟩
        · cases failure with
          | eof =>
              exact absurd rfl eof
          | _ =>
              rfl
        · rintro _ ⟨⟩
          exact absurd rfl eof
  | again next =>
      obtain ⟨final, kept, later⟩ :=
        keepLine_again held read pass (fits.arrays next pass)
      refine ⟨final, kept, ?_, nofun⟩
      rintro _ ⟨⟩
      exact later

/-- A pass that does not fit misuses an array. -/
theorem loadKeysPass_misuse
    (held : LinesHeld load calls blanks memory)
    (unfit : ¬ load.PassFits ssl heap) :
    run (loadKeysPassMemory ssl heap load) memory = none := by
  rw [loadKeysPassMemory_eq malloc]
  by_cases inBounds :
      ∀ index ∈ scanStores 0 load.file, index < 2 * rdrandMaxKeyLength
  · obtain ⟨middle, through, read⟩ :=
      loadKeysPass_reads malloc held inBounds
        (keepLineMemory load (loadKeysPass ssl heap load))
    rw [through]
    have overfull :
        ∃ next,
          loadKeysPass ssl heap load = .again next ∧
            next.keyLen ≠ 0 ∧
            maxKeys ≤ load.amount := by
      by_contra none
      push Not at none
      exact unfit ⟨inBounds, none⟩
    obtain ⟨next, pass, added, full⟩ := overfull
    have keys := held.keys
    rw [← read.apart.2.1] at keys
    obtain ⟨secret, locked, _, live⟩ := keys
    have beyond :
        ¬ pointerSize * (load.amount + 1) ≤ pointerSize * maxKeys := by
      have less : maxKeys < load.amount + 1 :=
        Nat.lt_succ_of_le full
      exact Nat.not_le.mpr (Nat.mul_lt_mul_of_pos_left less (by decide))
    rw [pass]
    unfold keepLineMemory
    simp only
    rw [if_neg added]
    refine run_on_misuse ?_ _
    rw [live, history, Action.perform, if_neg beyond]
    rfl
  · obtain ⟨allocated, through, _, _, others⟩ :=
      mallocLines_run malloc held
        (loadKeyLineMemory load.file load.aes.mallocCalls ++
          keepLineMemory load (loadKeysPass ssl heap load))
    have buf : allocated (.buf load.aes.mallocCalls) = .unused := by
      rw [others _ (by simp) (by simp)]
      exact (held.fresh _ (Nat.le_refl _)).2
    rw [through, run_append, loadKeyLine_misuse buf inBounds]
    rfl

/-- The loop misuses no block where every pass fits. -/
theorem loadKeysLoop_run
    {passes : Nat}
    (held : LinesHeld load calls blanks memory)
    (fit : load.PassesFit ssl heap passes) :
    ∃ final,
      run (loadKeysLoopMemory ssl heap passes load) memory =
          some final ∧
        ∀ last,
          (loadKeysLoop ssl heap).run passes load = .left .eof last →
          LinesHeld last (calls ++ addedLines ssl heap passes load)
            (blanks ++ skippedLines ssl heap passes load) final := by
  induction passes generalizing load calls blanks memory with
  | zero =>
      exact ⟨memory, rfl, nofun⟩
  | succ passes inductionHypothesis =>
      obtain ⟨middle, through, again, eof⟩ :=
        loadKeysPass_run malloc held fit.1
      unfold loadKeysLoopMemory addedLines skippedLines
      rw [run_append, through, Option.bind_some]
      cases pass : loadKeysPass ssl heap load with
      | leave failure last =>
          rw [Loop.run_leave rfl pass]
          refine ⟨middle, rfl, ?_⟩
          rintro _ ⟨⟩
          simp only [List.append_nil]
          exact eof last pass
      | again next =>
          rw [Loop.run_again rfl pass]
          obtain ⟨final, rest, kept⟩ :=
            inductionHypothesis (again next pass) (fit.2 next pass)
          refine ⟨final, rest, fun last left => ?_⟩
          simp only [← List.append_assoc]
          exact kept last left

/-- A pass that does not fit makes the loop misuse a block. -/
theorem loadKeysLoop_misuse
    {passes : Nat}
    (held : LinesHeld load calls blanks memory)
    (unfit : ¬ load.PassesFit ssl heap passes) :
    run (loadKeysLoopMemory ssl heap passes load) memory = none := by
  induction passes generalizing load calls blanks memory with
  | zero =>
      exact absurd trivial unfit
  | succ passes inductionHypothesis =>
      unfold loadKeysLoopMemory
      rw [run_append]
      by_cases here : load.PassFits ssl heap
      · have later :
            ∃ next,
              loadKeysPass ssl heap load = .again next ∧
                ¬ next.PassesFit ssl heap passes := by
          by_contra none
          push Not at none
          exact unfit ⟨here, none⟩
        obtain ⟨next, pass, unfitLater⟩ := later
        obtain ⟨middle, through, again, _⟩ :=
          loadKeysPass_run malloc held here
        rw [through, Option.bind_some, pass]
        exact inductionHypothesis (again next pass) unfitLater
      · rw [loadKeysPass_misuse malloc held here]
        rfl

end Loop

section Freeing

variable {calls : List Nat} {memory : Heap LoadBlock}

/-- A string may be cleared and freed. -/
theorem LineString.freed
    {status : Status}
    (string : LineString status) :
    history [.clear rdrandMaxKeyLength, .release] status =
      some .released := by
  obtain ⟨secret, within, rfl⟩ := string
  simp [history, Action.perform, within]

/-- The strings of one line are freed, and nothing else is. -/
theorem freeLine_run
    {call : Nat}
    (key : LineString (memory (.line call)))
    (nonce : LineString (memory (.line (call + 1)))) :
    run (freeLine call) memory =
      some
        (Function.update
          (Function.update memory (.line call) .released)
          (.line (call + 1)) .released) := by
  rw [run_eq_some_iff]
  intro block
  unfold freeLine
  by_cases isNonce : block = .line (call + 1)
  · subst isNonce
    simpa using nonce.freed
  by_cases isKey : block = .line call
  · subst isKey
    simpa using key.freed
  · simp [isNonce, isKey, Ne.symm isNonce, Ne.symm isKey, history]

/-- The strings of all lines that were added are freed, and no others. -/
theorem freeLines_run
    (added :
      ∀ call, OfLine calls call → LineString (memory (.line call)))
    (apart : calls.Pairwise fun first second => first + 1 < second) :
    ∃ final,
      run (calls.flatMap freeLine) memory = some final ∧
        (∀ call, OfLine calls call → final (.line call) = .released) ∧
        ∀ call,
          ¬ OfLine calls call →
          final (.line call) = memory (.line call) := by
  induction apart generalizing memory with
  | nil =>
      exact
        ⟨memory, rfl, fun call ofLine => (ofLine_nil call ofLine).elim,
          fun _ _ => rfl⟩
  | @cons first rest later _ inductionHypothesis =>
      have key := added first ⟨first, List.mem_cons_self, .inl rfl⟩
      have nonce :=
        added (first + 1) ⟨first, List.mem_cons_self, .inr rfl⟩
      have above :
          ∀ call, OfLine rest call → call ≠ first ∧ call ≠ first + 1 := by
        rintro call ⟨line, member, same⟩
        have below := later line member
        omega
      have whole :
          ∀ call,
            OfLine (first :: rest) call ↔
              OfLine [first] call ∨ OfLine rest call :=
        ofLine_append [first] rest
      obtain ⟨final, through, freed, others⟩ :=
        @inductionHypothesis
          (Function.update
            (Function.update memory (.line first) .released)
            (.line (first + 1)) .released) (by
          intro call ofLine
          obtain ⟨notKey, notNonce⟩ := above call ofLine
          simpa [notKey, notNonce] using
            added call ((whole call).mpr (.inr ofLine)))
      refine ⟨final, ?_, ?_, ?_⟩
      · rw [List.flatMap_cons, run_append, freeLine_run key nonce]
        exact through
      · intro call ofLine
        by_cases inRest : OfLine rest call
        · exact freed call inRest
        · rw [others call inRest]
          have own := ((whole call).mp ofLine).resolve_right inRest
          rw [ofLine_singleton] at own
          rcases own with rfl | rfl
          · simp
          · simp
      · intro call notOfLine
        rw [whole, ofLine_singleton, not_or, not_or] at notOfLine
        obtain ⟨⟨notKey, notNonce⟩, inRest⟩ := notOfLine
        rw [others call inRest]
        simp [notKey, notNonce]

/-- Copying the keys and nonces changes nothing in the strings of the lines. -/
theorem copyLines_run
    {keyLength : Nat}
    (short : keyLength ≤ rdrandMaxKeyLength)
    (added :
      ∀ call, OfLine calls call → LineString (memory (.line call))) :
    run (calls.flatMap (copyLine keyLength)) memory = some memory := by
  refine run_loads ?_
  intro event member
  obtain ⟨call, inCalls, member⟩ := List.mem_flatMap.mp member
  obtain ⟨keySecret, keyWithin, key⟩ :=
    added call ⟨call, inCalls, .inl rfl⟩
  obtain ⟨nonceSecret, nonceWithin, nonce⟩ :=
    added (call + 1) ⟨call, inCalls, .inr rfl⟩
  rcases List.mem_append.mp member with inKey | inNonce
  · rw [List.mem_singleton.mp inKey]
    exact ⟨_, _, ⟨_, _, keyWithin, key⟩, rfl, short⟩
  · rw [List.mem_singleton.mp inNonce]
    exact
      ⟨_, _, ⟨_, _, nonceWithin, nonce⟩, rfl,
        Nat.le_trans (Nat.div_le_self _ 2) short⟩

/-- Reading pointers that were stored changes nothing. -/
theorem readArrays_run
    {amount : Nat}
    (within : amount ≤ maxKeys)
    (keys : (memory .keys).Allocated (pointerSize * maxKeys))
    (nonces : (memory .nonces).Allocated (pointerSize * maxKeys)) :
    run (readArrays amount) memory = some memory := by
  have below : pointerSize * amount ≤ pointerSize * maxKeys :=
    Nat.mul_le_mul_left _ within
  refine run_loads ?_
  intro event member
  rcases List.mem_append.mp member with inKeys | inNonces
  · rw [List.mem_singleton.mp inKeys]
    exact ⟨_, _, keys, rfl, below⟩
  · rw [List.mem_singleton.mp inNonces]
    exact ⟨_, _, nonces, rfl, below⟩

end Freeing

section File

variable
  {ssl : OpenSsl}
  {heap : Nat → List Byte}
  {locks : MemoryLocks}
  {contents : List Char}
  {state : AesState}

/-- Of the strings of the lines some are left, and nothing is in them. -/
structure LinesFreed
    (left : Nat → Prop)
    (final : Heap LoadBlock) : Prop where
  live : ∀ call, (final (.line call)).isLive = true ↔ left call
  blank : ∀ call, left call → final (.line call) = blankString

/-- Where no strings are left, nothing need have been allocated. -/
theorem linesFreed_nothing
    {left : Nat → Prop}
    (nothing : ∀ call, ¬ left call) :
    LinesFreed left Heap.empty where
  live call :=
    iff_of_false (fun live => Bool.false_ne_true live) (nothing call)
  blank call isLeft := absurd isLeft (nothing call)

/-- The keys are set from the lines, which are then freed. -/
theorem setLoadedKeysMemory_rights
    {load : KeyLoad}
    {calls blanks : List Nat}
    {memory : Heap LoadBlock}
    (held : LinesHeld load calls blanks memory) :
    ∃ final,
      run (rights (setLoadedKeysMemory ssl locks load calls)) memory =
          some final ∧
        ((setLoadedKeys ssl load).result = .ok →
          LinesFreed (OfLine blanks) final) := by
  unfold setLoadedKeysMemory setLoadedKeys
  split
  · exact ⟨memory, rfl, nofun⟩
  · simp only [rights_append, rights_inRight, rights_inLeft,
      List.append_nil]
    split
    · next success =>
        obtain ⟨_, length⟩ := rdrandSetAesKeys_length success
        have short : load.firstLen ≤ rdrandMaxKeyLength := by
          unfold rdrandMaxKeyLength
          omega
        obtain ⟨final, through, freed, others⟩ :=
          freeLines_run held.added held.apart
        have blank :
            ∀ call,
              OfLine blanks call → final (.line call) = blankString := by
          intro call isBlank
          rw [others call (held.different call isBlank)]
          exact held.blank call isBlank
        refine ⟨final, ?_, fun _ => ⟨fun call => ⟨?_, ?_⟩, blank⟩⟩
        · have reads :=
            readArrays_run held.within held.keys held.nonces
          rw [run_append, run_append, reads, Option.bind_some,
            copyLines_run short held.added, Option.bind_some,
            run_append, reads, Option.bind_some]
          exact through
        · intro live
          by_cases ofLine : OfLine calls call
          · rw [freed call ofLine] at live
            cases live
          · rw [others call ofLine] at live
            exact (held.live call live).resolve_left ofLine
        · intro isBlank
          rw [blank call isBlank]
          rfl
    · exact ⟨memory, rfl, nofun⟩

/-- The arrays of pointers, before the loop. -/
theorem loadArrays_run
    (rest : LoadEvents) :
    ∃ memory,
      run
          (on .keys [.allocate (pointerSize * maxKeys)] ++
            on .nonces [.allocate (pointerSize * maxKeys)] ++ rest)
          Heap.empty =
        run rest memory ∧
      LinesHeld (loadStart contents state) [] [] memory := by
  have allocated :
      ∀ block : LoadBlock,
        history [.allocate (pointerSize * maxKeys)] (Heap.empty block) =
          some (.live (pointerSize * maxKeys) 0 false) :=
    fun _ => rfl
  have array :
      (Status.live (pointerSize * maxKeys) 0 false).Allocated
        (pointerSize * maxKeys) :=
    ⟨0, false, Nat.zero_le _, rfl⟩
  rw [List.append_assoc,
    run_on_pair (by simp) (allocated .keys) (allocated .nonces)]
  refine ⟨_, rfl, ?_, ?_, ?_, ?_, ?_, ?_, ?_, .nil, ?_, Nat.zero_le _⟩
  · intro call _
    simp [Heap.empty]
  · simpa using array
  · simpa using array
  · intro call ofLine
    exact (ofLine_nil call ofLine).elim
  · intro call ofLine
    exact (ofLine_nil call ofLine).elim
  · intro call live
    simp [Heap.empty, Status.isLive] at live
  · intro call ofLine
    simp at ofLine
  · intro call ofLine
    exact (ofLine_nil call ofLine).elim

/-- A pass leaves with an error, or at the end of the file. -/
theorem loadKeysLoop_notOk
    {passes : Nat}
    {load final : KeyLoad} :
    (loadKeysLoop ssl heap).run passes load ≠ .left .ok final := by
  intro left
  obtain ⟨_, _, _, _, _, leave⟩ := Loop.left_reached left
  exact (loadKeysPass_leaves heap leave).notOk rfl

/--
Where every pass fits, loading misuses none of its own blocks, and where it
succeeds, it leaves none of its strings but those of empty lines.
-/
theorem loadKeysMemory_rights_run
    (malloc : ∀ call, ssl.mallocOk call = true)
    (fit :
      (loadStart contents state).PassesFit ssl heap
        (contents.length + 1)) :
    ∃ final,
      run (rights (loadKeysMemory ssl heap locks contents state))
          Heap.empty = some final ∧
        ∀ loaded,
          loadKeys ssl heap contents state = some loaded →
          loaded.result = .ok →
          LinesFreed
            (OfLine
              (skippedLines ssl heap (contents.length + 1)
                (loadStart contents state)))
            final := by
  obtain ⟨memory, opened, held⟩ :=
    @loadArrays_run contents state
      (loadKeysLoopMemory ssl heap (contents.length + 1)
        (loadStart contents state))
  obtain ⟨middle, through, kept⟩ := loadKeysLoop_run malloc held fit
  unfold loadKeysMemory
  simp only [rights_append, rights_inRight]
  rw [run_append, opened, through, Option.bind_some]
  cases status :
      (loadKeysLoop ssl heap).run (contents.length + 1)
        (loadStart contents state) with
  | running load =>
      refine ⟨middle, rfl, fun loaded read => ?_⟩
      unfold loadKeys at read
      unfold loadStart at status
      rw [status] at read
      cases read
  | finished load =>
      refine ⟨middle, rfl, fun loaded read => ?_⟩
      unfold loadKeys at read
      unfold loadStart at status
      rw [status] at read
      cases read
  | left failure load =>
      have read := loadKeys_of_left status (Nat.le_refl _)
      by_cases eof : failure = .eof
      · subst eof
        obtain ⟨final, later, blank⟩ :=
          @setLoadedKeysMemory_rights ssl locks _ _ _ _
            (kept load status)
        refine ⟨final, later, fun loaded same ok => ?_⟩
        rw [if_pos rfl] at read
        rw [read] at same
        cases same
        exact blank ok
      · refine ⟨middle, ?_, fun loaded same ok => ?_⟩
        · cases failure with
          | eof =>
              exact absurd rfl eof
          | _ =>
              rfl
        · rw [if_neg eof] at read
          rw [read] at same
          cases same
          rw [show failure = .ok from ok] at status
          exact absurd status loadKeysLoop_notOk

/-- Where a pass does not fit, loading misuses a block. -/
theorem loadKeysMemory_rights_misuse
    (malloc : ∀ call, ssl.mallocOk call = true)
    (unfit :
      ¬ (loadStart contents state).PassesFit ssl heap
        (contents.length + 1)) :
    run (rights (loadKeysMemory ssl heap locks contents state))
      Heap.empty = none := by
  obtain ⟨memory, opened, held⟩ :=
    @loadArrays_run contents state
      (loadKeysLoopMemory ssl heap (contents.length + 1)
        (loadStart contents state))
  unfold loadKeysMemory
  simp only [rights_append, rights_inRight]
  rw [run_append, opened, loadKeysLoop_misuse malloc held unfit]
  rfl

end File

end RdRand
