import RdRand.KeySettings
import RdRand.FinalNewline

namespace RdRand

/-!
# Which key files are accepted

A file of keys is accepted by what its lines say alone.  Every line that a
newline ends is empty, or spells a key of one length and a nonce, and there is
a key.  What follows the last newline adds no key, but has to consist of
digits as well.
-/

/-- Lines that `load_keys` accepts one after another. -/
def KeyText (lines : List (List Char)) : Prop :=
  ∃ keyLen, ∀ line ∈ lines, line = [] ∨ KeyDigits keyLen line

/-- The text of a file with keys of so many bytes. -/
structure KeyFileText (keyLen : Nat) (file : List Char) : Prop where
  length : keyLen = 8 ∨ keyLen = 16
  lines : ∀ line ∈ fileLines file, line = [] ∨ KeyDigits keyLen line
  nonempty : ∃ line ∈ fileLines file, line ≠ []
  lastLine : ∃ length, DigitLine length (lastLine file)

section Acceptance

variable
  {ssl : OpenSsl}
  (heap : Nat → List Byte)
  {file : List Char}
  {state : AesState}

/-- Which lines are accepted is a matter of their text. -/
theorem acceptedLines_iff
    (malloc : ∀ call, ssl.mallocOk call = true)
    {lines : List (List Char)} :
    AcceptedLines ssl (loadStart file state) lines ↔ KeyText lines := by
  constructor
  · intro accepted
    by_cases empty : ∀ line ∈ lines, line = []
    · exact ⟨0, fun line member => .inl (empty line member)⟩
    · push Not at empty
      obtain ⟨first, inFirst, some⟩ := empty
      obtain ⟨keyLen, digits, _⟩ :=
        (accepted.taken first inFirst).resolve_left some
      refine ⟨keyLen, fun line member => ?_⟩
      rcases accepted.taken line member with blank | ⟨other, otherDigits, _⟩
      · exact .inl blank
      · have same :=
          accepted.same first inFirst line member some
            otherDigits.nonempty
        rw [(digits.length_eq_iff otherDigits).mp same]
        exact .inr otherDigits
  · rintro ⟨keyLen, text⟩
    refine ⟨?_, ?_, fun _ _ => ⟨malloc _, malloc _⟩⟩
    · intro line member
      rcases text line member with blank | digits
      · exact .inl blank
      · exact .inr ⟨keyLen, digits, .inl rfl⟩
    · intro first inFirst second inSecond some others
      exact
        (((text first inFirst).resolve_left some).length_eq_iff
          ((text second inSecond).resolve_left others)).mpr rfl

/-- The lines of such a text are accepted one after another. -/
theorem KeyFileText.acceptedLines
    {keyLen : Nat}
    (text : KeyFileText keyLen file)
    (malloc : ∀ call, ssl.mallocOk call = true) :
    AcceptedLines ssl (loadStart file state) (fileLines file) :=
  (acceptedLines_iff malloc).mpr ⟨keyLen, text.lines⟩

/-- Lines that were all added, with a key of a length that can be set. -/
theorem Adds.keyFileText
    {next : KeyLoad}
    (adds : Adds (fileLines file) (loadStart file state) next)
    (some : keyCount (fileLines file) ≠ 0)
    (settable : next.firstLen = 8 ∨ next.firstLen = 16)
    (last : ∃ length, DigitLine length (lastLine file)) :
    KeyFileText next.firstLen file where
  length := settable
  lines line member := by
    by_cases empty : line = []
    · exact .inl empty
    · exact .inr (adds.firstLen line member empty)
  nonempty := by
    by_contra none
    push Not at none
    exact some (keyCount_eq_zero_iff.mpr none)
  lastLine := last

/-- A run of the loop gets such a text to the end, with its keys. -/
theorem KeyFileRun.text_iff
    {count : Nat}
    {next final : KeyLoad}
    {failure : FileError}
    (run : KeyFileRun ssl heap file state count next failure final)
    (malloc : ∀ call, ssl.mallocOk call = true)
    (keyLen : Nat) :
    KeyFileText keyLen file ↔
      failure = .eof ∧
        final.amount ≠ 0 ∧
        final.firstLen = keyLen ∧
        (keyLen = 8 ∨ keyLen = 16) := by
  constructor
  · intro text
    have eof : failure = .eof :=
      run.eof.mpr
        ⟨text.acceptedLines malloc, ⟨malloc _, malloc _⟩, text.lastLine⟩
    obtain ⟨adds, amount, firstLen⟩ := run.adds_eof eof
    obtain ⟨line, member, nonempty⟩ := text.nonempty
    have digits := (text.lines line member).resolve_left nonempty
    have sameLen : keyLen = next.firstLen :=
      (digits.length_eq_iff (adds.firstLen line member nonempty)).mp rfl
    have some : keyCount (fileLines file) ≠ 0 :=
      fun none => nonempty (keyCount_eq_zero_iff.mp none line member)
    rw [amount, firstLen]
    exact ⟨eof, some, sameLen.symm, text.length⟩
  · rintro ⟨eof, some, rfl, settable⟩
    obtain ⟨adds, amount, firstLen⟩ := run.adds_eof eof
    obtain ⟨_, _, last⟩ := run.eof.mp eof
    rw [amount] at some
    rw [firstLen] at settable ⊢
    exact adds.keyFileText some settable last

/-- `load_keys` never reports the end of the file. -/
theorem loadKeys_notEof
    (malloc : ∀ call, ssl.mallocOk call = true)
    {loaded : Loaded}
    (read : loadKeys ssl heap file state = some loaded) :
    loaded.result ≠ .eof := by
  obtain ⟨count, next, failure, final, run⟩ :=
    loadKeys_run ssl heap file state
  rw [run.loadKeys_eq] at read
  cases read
  split
  · rw [setLoadedKeys_result malloc]
    split <;> exact nofun
  · next notEof =>
      exact notEof

/-- `load_keys` accepts exactly the files with such a text. -/
theorem loadKeys_ok_iff
    (file : List Char)
    (state : AesState)
    (malloc : ∀ call, ssl.mallocOk call = true) :
    ∃ loaded,
      loadKeys ssl heap file state = some loaded ∧
        (loaded.result = .ok ↔ ∃ keyLen, KeyFileText keyLen file) := by
  obtain ⟨count, next, failure, final, run⟩ :=
    loadKeys_run ssl heap file state
  refine ⟨_, run.loadKeys_eq, ?_⟩
  simp only [run.text_iff heap malloc]
  by_cases eof : failure = .eof
  · rw [if_pos eof, setLoadedKeys_result malloc]
    constructor
    · intro ok
      split at ok
      · next settable =>
          exact ⟨_, eof, settable.1, rfl, settable.2⟩
      · cases ok
    · rintro ⟨keyLen, _, some, rfl, settable⟩
      rw [if_pos ⟨some, settable⟩]
  · rw [if_neg eof]
    refine iff_of_false run.leaves.notOk ?_
    rintro ⟨_, atEnd, _⟩
    exact eof atEnd

end Acceptance

end RdRand
