import RdRand.KeyLines

namespace RdRand

/-!
# The limit on the keys of a file

`load_keys` has room for `MAX_KEYS` keys, and counts the keys it stores, but
never compares the two.
-/

open ControlLoop

section Stores

variable
  (ssl : OpenSsl)
  (heap : Nat → List Byte)

/-- The indices at which `load_keys` stores into `keys` and `nonces`. -/
def keyStores : Nat → KeyLoad → List Nat
  | 0, _ => []
  | passes + 1, load =>
      match loadKeysPass ssl heap load with
      | .leave _ _ => []
      | .again next =>
          (if next.amount = load.amount then [] else [load.amount]) ++
            keyStores passes next

/-- What `load_keys` calls `rdrand_set_aes_keys` with, if it does. -/
def setCall (contents : List Char) (state : AesState) : Option KeyLoad :=
  match
    (loadKeysLoop ssl heap).run (contents.length + 1)
      (loadStart contents state) with
  | .left .eof load => if load.amount = 0 then none else some load
  | _ => none

/-- A line that `load_keys` takes for a key by itself. -/
def isKeyLine (line : List Char) : Bool :=
  line.all isHexDigit && line.length % 3 == 0 &&
    decide (3 * rdrandMinKeyLength ≤ line.length) &&
    decide (line.length ≤ rdrandMaxKeyLength * 2 + 1)

/-- The lines of a file that are taken for keys, the last one included. -/
def keyLines (contents : List Char) : Nat :=
  (fileLines contents ++ [lastLine contents]).countP isKeyLine

/--
What the limit is for: no store lies beyond the arrays, and a file with more
keys is an error, for which no keys are set.
-/
structure KeyLimit (contents : List Char) (state : AesState) : Prop where
  inBounds :
    ∀ index ∈
        keyStores ssl heap (contents.length + 1)
          (loadStart contents state),
      index < maxKeys
  rejects :
    maxKeys < keyLines contents →
    setCall ssl heap contents state = none ∧
      ∃ loaded,
        loadKeys ssl heap contents state = some loaded ∧
          loaded.result ≠ .ok

end Stores

/-- The files of lines that respect the limit by themselves. -/
structure FewKeys
    (ssl : OpenSsl)
    (contents : List Char)
    (state : AesState) : Prop where
  lines :
    ∀ count,
      AcceptedLines ssl (loadStart contents state)
        ((fileLines contents).take count) →
      keyCount ((fileLines contents).take count) ≤ maxKeys
  lastLine :
    AcceptedLines ssl (loadStart contents state) (fileLines contents) →
    Allocates ssl
      (state.mallocCalls + 2 * (fileLines contents).length) →
    keyCount (fileLines contents) = maxKeys →
    isKeyLine (lastLine contents) = false

section Lines

variable {line : List Char} {lines : List (List Char)}

/-- A line is taken for a key where it consists of the digits of one. -/
theorem isKeyLine_iff :
    isKeyLine line = true ↔ ∃ keyLen, KeyDigits keyLen line := by
  simp only [isKeyLine, Bool.and_eq_true, List.all_eq_true, beq_iff_eq,
    decide_eq_true_eq]
  constructor
  · rintro ⟨⟨⟨hex, thirds⟩, long⟩, fits⟩
    exact
      ⟨line.length / 3, ⟨hex, by omega, fits⟩, by omega⟩
  · rintro ⟨keyLen, ⟨hex, spans, fits⟩, long⟩
    exact ⟨⟨⟨hex, by omega⟩, by omega⟩, fits⟩

/-- The accepted lines that are not empty are taken for keys. -/
theorem AcceptedLines.countP_isKeyLine
    {ssl : OpenSsl}
    {load : KeyLoad}
    (accepted : AcceptedLines ssl load lines) :
    lines.countP isKeyLine = keyCount lines := by
  unfold keyCount
  apply List.countP_congr
  intro line member
  rw [isKeyLine_iff]
  constructor
  · rintro ⟨keyLen, digits⟩
    simp [digits.nonempty]
  · intro nonempty
    rcases accepted.taken line member with rfl | ⟨keyLen, digits, _⟩
    · cases nonempty
    · exact ⟨keyLen, digits⟩

/-- A longer front of some lines has no fewer keys. -/
theorem keyCount_mono
    {front : List (List Char)}
    (isPrefix : front <+: lines) :
    keyCount front ≤ keyCount lines :=
  isPrefix.sublist.countP_le

end Lines

section Limit

variable
  {ssl : OpenSsl}
  {heap : Nat → List Byte}
  {load next : KeyLoad}

/-- A pass that goes on stores one key, or none. -/
theorem loadKeysPass_amount
    (again : loadKeysPass ssl heap load = .again next) :
    next.amount = load.amount ∨ next.amount = load.amount + 1 := by
  by_cases allocates : Allocates ssl load.aes.mallocCalls
  · rw [loadKeysPass_allocates heap allocates] at again
    unfold addKeyLine at again
    simp only at again
    split at again
    · cases again
    · split at again
      · cases again
        exact .inl rfl
      · split at again
        · cases again
        · generalize
            (if load.firstLen = 0 then _ else load.firstLen) = firstLen
            at again
          split at again
          · cases again
          · cases again
            exact .inr List.length_append
  · rw [loadKeysPass_failed heap allocates] at again
    cases again

/-- The stores of some passes follow each other. -/
theorem keyStores_running
    {passes : Nat}
    (running :
      (loadKeysLoop ssl heap).run passes load = .running next)
    (more : Nat) :
    load.amount ≤ next.amount ∧
      keyStores ssl heap (passes + more) load =
        List.range' load.amount (next.amount - load.amount) ++
          keyStores ssl heap more next := by
  induction passes generalizing load with
  | zero =>
      cases running
      simp
  | succ passes inductionHypothesis =>
      cases pass : loadKeysPass ssl heap load with
      | leave failure final =>
          rw [Loop.run_leave rfl pass] at running
          cases running
      | again middle =>
          rw [Loop.run_again rfl pass] at running
          obtain ⟨atMost, stores⟩ := inductionHypothesis running
          rw [Nat.add_right_comm]
          simp only [keyStores, pass, stores]
          rcases loadKeysPass_amount pass with same | one
          · rw [same] at atMost ⊢
            exact ⟨atMost, by simp⟩
          · refine ⟨by omega, ?_⟩
            rw [if_neg (by omega), one, ← List.append_assoc,
              show next.amount - load.amount =
                next.amount - (load.amount + 1) + 1 by omega,
              List.range'_succ]
            rfl

variable
  {file : List Char}
  {state : AesState}
  {count : Nat}
  {final : KeyLoad}
  {failure : FileError}

/-- The keys that a run of the loop stores. -/
theorem KeyFileRun.keyStores
    (run : KeyFileRun ssl heap file state count next failure final) :
    RdRand.keyStores ssl heap (file.length + 1) (loadStart file state) =
        List.range (keyCount ((fileLines file).take count)) ∧
      final.amount = keyCount ((fileLines file).take count) := by
  have adds : Adds ((fileLines file).take count) (loadStart file state) next :=
    run.reads.adds
  have amount :
      next.amount = keyCount ((fileLines file).take count) :=
    adds.amount.trans (Nat.zero_add _)
  have within : count ≤ (fileLines file).length := run.reads.within
  have enough := fileLines_length_le file
  have stores :=
    (keyStores_running run.reads.runs (file.length - count + 1)).2
  rw [show count + (file.length - count + 1) = file.length + 1 by omega]
    at stores
  refine ⟨?_, ?_⟩
  · rw [stores, RdRand.keyStores, run.pass, List.append_nil, amount,
      List.range_eq_range']
    rfl
  · rw [← amount]
    exact congrArg List.length run.leaves.keys

/-- All stores are in bounds where the accepted lines have few keys. -/
theorem KeyFileRun.inBounds_iff
    (run : KeyFileRun ssl heap file state count next failure final) :
    (∀ index ∈
          RdRand.keyStores ssl heap (file.length + 1)
            (loadStart file state),
        index < maxKeys) ↔
      ∀ other,
        AcceptedLines ssl (loadStart file state)
          ((fileLines file).take other) →
        keyCount ((fileLines file).take other) ≤ maxKeys := by
  rw [run.keyStores.1]
  constructor
  · intro inBounds other accepted
    refine
      Nat.le_trans (keyCount_mono (run.furthest other accepted)) ?_
    by_contra overlong
    exact
      Nat.lt_irrefl maxKeys
        (inBounds maxKeys
          (List.mem_range.mpr (Nat.lt_of_not_le overlong)))
  · intro few index member
    exact
      Nat.lt_of_lt_of_le (List.mem_range.mp member)
        (few count run.reads.accepted)

/-- Keys are set where the loop meets the end of the file with some. -/
theorem KeyFileRun.setCall_eq
    (run : KeyFileRun ssl heap file state count next failure final) :
    setCall ssl heap file state =
      if failure = .eof ∧ final.amount ≠ 0 then some final else none := by
  unfold setCall
  rw [run.run]
  cases failure with
  | eof =>
      by_cases nothing : final.amount = 0 <;> simp [nothing]
  | _ => simp

/-- The lines of a file that is accepted as a whole, and its last line. -/
theorem keyLines_eq
    (accepted :
      AcceptedLines ssl (loadStart file state) (fileLines file)) :
    keyLines file =
      keyCount (fileLines file) +
        if isKeyLine (lastLine file) then 1 else 0 := by
  rw [keyLines, List.countP_append, accepted.countP_isKeyLine,
    List.countP_singleton]

/-- Few lines that are accepted as a whole hold few keys. -/
theorem FewKeys.keyLines_le
    (few : FewKeys ssl file state)
    (accepted :
      AcceptedLines ssl (loadStart file state) (fileLines file))
    (allocates :
      Allocates ssl
        (state.mallocCalls + 2 * (fileLines file).length)) :
    keyLines file ≤ maxKeys := by
  have bounded := few.lines (fileLines file).length
  rw [List.take_length] at bounded
  have atMost := bounded accepted
  rw [keyLines_eq accepted]
  cases keyLine : isKeyLine (RdRand.lastLine file) with
  | false =>
      simpa using atMost
  | true =>
      have notFull : keyCount (fileLines file) ≠ maxKeys := by
        intro full
        have noKey := few.lastLine accepted allocates full
        rw [keyLine] at noKey
        cases noKey
      simp only [if_true]
      omega

/--
The limit is respected exactly where the accepted lines have no more than
`MAX_KEYS` keys, and no further key follows them on an unterminated last line.
-/
theorem loadKeys_keyLimit_iff
    (ssl : OpenSsl)
    (heap : Nat → List Byte)
    (contents : List Char)
    (state : AesState) :
    KeyLimit ssl heap contents state ↔ FewKeys ssl contents state := by
  obtain ⟨count, next, failure, final, run⟩ :=
    loadKeys_run ssl heap contents state
  have amount := run.keyStores.2
  constructor
  · intro limit
    refine ⟨run.inBounds_iff.mp limit.inBounds, ?_⟩
    intro accepted allocates full
    by_contra keyLine
    rw [Bool.not_eq_false] at keyLine
    obtain ⟨keyLen, digits⟩ := isKeyLine_iff.mp keyLine
    have eof : failure = .eof :=
      run.eof.mpr ⟨accepted, allocates, keyLen, digits.toDigitLine⟩
    have more : maxKeys < keyLines contents := by
      rw [keyLines_eq accepted, full, if_pos keyLine]
      exact Nat.lt_succ_self maxKeys
    have noCall := (limit.rejects more).1
    rw [run.whole eof, List.take_length, full] at amount
    rw [run.setCall_eq, if_pos ⟨eof, by rw [amount]; decide⟩] at noCall
    cases noCall
  · intro few
    refine ⟨run.inBounds_iff.mpr few.lines, ?_⟩
    intro more
    by_cases eof : failure = .eof
    · obtain ⟨accepted, allocates, _⟩ := run.eof.mp eof
      exact
        absurd (few.keyLines_le accepted allocates) (Nat.not_le.mpr more)
    · refine ⟨?_, _, run.loadKeys_eq, ?_⟩
      · rw [run.setCall_eq, if_neg (fun both => eof both.1)]
      · rw [if_neg eof]
        exact run.leaves.notOk

end Limit

/-- The lines of a file that repeats one line. -/
theorem lines_replicate
    {line : List Char}
    (noNewline : '\n' ∉ line)
    (count : Nat) :
    fileLines (List.replicate count (line ++ ['\n'])).flatten =
        List.replicate count line ∧
      lastLine (List.replicate count (line ++ ['\n'])).flatten = [] := by
  induction count with
  | zero =>
      exact ⟨rfl, rfl⟩
  | succ count inductionHypothesis =>
      obtain ⟨lines, last⟩ := inductionHypothesis
      rw [List.replicate_succ, List.flatten_cons, List.append_assoc,
        List.replicate_succ]
      refine ⟨?_, ?_⟩
      · exact
          (TextLines.terminated_line noNewline _).trans
            (congrArg (line :: ·) lines)
      · exact (TextLines.unterminated_line noNewline _).trans last

/-- Repeated lines of one key are accepted, however many there are. -/
theorem acceptedLines_replicate
    {ssl : OpenSsl}
    (malloc : ∀ call, ssl.mallocOk call = true)
    {keyLen : Nat}
    {line : List Char}
    (digits : KeyDigits keyLen line)
    (count : Nat)
    (contents : List Char)
    (state : AesState) :
    AcceptedLines ssl (loadStart contents state)
      (List.replicate count line) := by
  refine ⟨?_, ?_, ?_⟩
  · intro other member
    rw [List.eq_of_mem_replicate member]
    exact .inr ⟨keyLen, digits, .inl rfl⟩
  · intro first inFirst second inSecond _ _
    rw [List.eq_of_mem_replicate inFirst,
      List.eq_of_mem_replicate inSecond]
  · exact fun _ _ => ⟨malloc _, malloc _⟩

/--
A file of 129 lines, each with a key of 16 bytes and its nonce: the last key
is stored behind the arrays, and all keys are set.
-/
theorem loadKeys_stores_outside :
    let file :=
      (List.replicate 129
        ((List.replicate 24 ['1', 'a']).flatten ++ ['\n'])).flatten
    maxKeys < keyLines file ∧
      maxKeys ∈
        keyStores .sample (fun _ => List.replicate 32 7)
          (file.length + 1) (loadStart file aesStart) ∧
      setCall .sample (fun _ => List.replicate 32 7) file aesStart ≠
        none := by
  intro file
  have digits :
      KeyDigits 16 (List.replicate 24 ['1', 'a']).flatten :=
    ⟨⟨List.all_eq_true.mp (by decide), by decide, by decide⟩, by decide⟩
  have shape :=
    lines_replicate
      (show '\n' ∉ (List.replicate 24 ['1', 'a']).flatten by decide) 129
  have lines :
      fileLines file =
        List.replicate 129 (List.replicate 24 ['1', 'a']).flatten :=
    shape.1
  have last : lastLine file = [] :=
    shape.2
  have accepted :
      AcceptedLines .sample (loadStart file aesStart) (fileLines file) := by
    rw [lines]
    exact acceptedLines_replicate (fun _ => rfl) digits 129 file aesStart
  have keys : keyCount (fileLines file) = 129 := by
    rw [lines, keyCount, List.countP_replicate, if_pos (by decide)]
  obtain ⟨count, next, failure, final, run⟩ :=
    loadKeys_run .sample (fun _ => List.replicate 32 7) file aesStart
  have eof : failure = .eof :=
    run.eof.mpr
      ⟨accepted, ⟨rfl, rfl⟩, 0, by
        rw [last]
        exact ⟨List.forall_mem_nil _, rfl, by decide⟩⟩
  obtain ⟨stores, amount⟩ := run.keyStores
  rw [run.whole eof, List.take_length, keys] at stores amount
  refine ⟨?_, ?_, ?_⟩
  · rw [keyLines_eq accepted, keys]
    exact Nat.le_add_right _ _
  · rw [stores]
    exact List.mem_range.mpr (by decide)
  · rw [run.setCall_eq, if_pos ⟨eof, by rw [amount]; decide⟩]
    exact Option.some_ne_none final

end RdRand
