import RdRand.FinalNewline

namespace RdRand

/-!
# What is printed about a key file

`load_key_line` prints a character of the file that is no hexadecimal digit,
and the file is refused.  The lines before it have been read to their ends, so
that it is the first character of the file that is neither a hexadecimal digit
nor a newline.
-/

open ControlLoop Hexadecimal

/-- A character that a key file has no use for. -/
def isForeign (c : Char) : Bool :=
  c != '\n' && !isHexDigit c

section Line

theorem isForeign_of_digit {c : Char} (digit : isHexDigit c = true) :
    isForeign c = false := by
  simp [isForeign, digit]

/-- Scanning passes over no foreign character. -/
theorem scanLine_foreign (i : Nat) (file : List Char) :
    (∀ c,
      (scanLine i file).stop = .invalidCharacter c →
      file.find? isForeign = some c) ∧
      ((scanLine i file).stop = .newline →
        file.find? isForeign =
          (scanLine i file).rest.find? isForeign) := by
  induction file generalizing i with
  | nil =>
      simp [scanLine]
  | cons c rest inductionHypothesis =>
      rw [scanLine]
      by_cases newline : c = '\n'
      · subst newline
        have passedOver : isForeign '\n' = false := by
          decide
        simp [List.find?_cons_of_neg, passedOver]
      · rw [if_neg newline]
        by_cases digit : isHexDigit c = true
        · rw [if_pos digit,
            List.find?_cons_of_neg (by simp [isForeign_of_digit digit])]
          split
          · simp
          · exact inductionHypothesis (i + 1)
        · have foreign : isForeign c = true := by
            simp [isForeign, newline, digit]
          rw [if_neg digit, List.find?_cons_of_pos foreign]
          simp

/-- What `load_key_line` says of the first foreign character. -/
structure KeyLine.Diagnosed (file : List Char) (line : KeyLine) : Prop where
  reported :
    line.result = .keyInvalidCharacter →
    line.unknown = file.find? isForeign ∧ line.unknown.isSome
  silent :
    line.result ≠ .keyInvalidCharacter →
    line.unknown = none
  passedOver :
    line.result = .ok →
    file.find? isForeign = line.rest.find? isForeign

/-- A line that is read to its end prints nothing. -/
theorem KeyLine.Diagnosed.of_ok
    {file : List Char}
    {line : KeyLine}
    (ok : line.result = .ok)
    (silent : line.unknown = none)
    (passedOver :
      file.find? isForeign = line.rest.find? isForeign) :
    line.Diagnosed file where
  reported refused := by
    rw [ok] at refused
    cases refused
  silent _ := silent
  passedOver _ := passedOver

/-- Nor does any other error. -/
theorem KeyLine.Diagnosed.of_error
    {file : List Char}
    {line : KeyLine}
    (failed : line.result ≠ .ok)
    (accepted : line.result ≠ .keyInvalidCharacter)
    (silent : line.unknown = none) :
    line.Diagnosed file where
  reported refused := absurd refused accepted
  silent _ := silent
  passedOver ok := absurd ok failed

theorem loadKeyLine_diagnosed
    (file : List Char)
    (key nonce : List Byte)
    (keyLen nonceLen : Nat) :
    (loadKeyLine file key nonce keyLen nonceLen).Diagnosed file := by
  obtain ⟨foreign, readOn⟩ := scanLine_foreign 0 file
  unfold loadKeyLine
  cases stop : (scanLine 0 file).stop with
  | invalidCharacter c =>
      simp only [stop]
      refine ⟨?_, ?_, ?_⟩
      · exact fun _ => ⟨(foreign c stop).symm, rfl⟩
      · exact fun other => absurd rfl other
      · intro ok
        cases ok
  | tooLong =>
      simp only [stop]
      exact .of_error (by simp) (by simp) rfl
  | endOfFile =>
      simp only [stop, if_true]
      split
      · exact .of_error (by simp) (by simp) rfl
      · exact .of_error (by simp) (by simp) rfl
  | newline =>
      have same := readOn stop
      simp only [stop, reduceCtorEq, if_false]
      split
      · exact .of_error (by simp) (by simp) rfl
      · split
        · exact .of_ok rfl rfl same
        · exact .of_ok rfl rfl same

end Line

section File

variable {ssl : OpenSsl} {heap : Nat → List Byte}

/-- What has been printed by the end of the loop over the lines. -/
structure KeyLoad.Diagnosed
    (file : List Char)
    (failure : FileError)
    (load : KeyLoad) : Prop where
  reported :
    failure = .keyInvalidCharacter →
    load.unknown = file.find? isForeign ∧ load.unknown.isSome
  silent : failure ≠ .keyInvalidCharacter → load.unknown = none

/-- Nothing is printed for another reason. -/
theorem KeyLoad.Diagnosed.other
    {file : List Char}
    {failure : FileError}
    {load : KeyLoad}
    (accepted : failure ≠ .keyInvalidCharacter)
    (silent : load.unknown = none) :
    load.Diagnosed file failure where
  reported refused := absurd refused accepted
  silent _ := silent

/-- A pass that goes on has passed over no foreign character. -/
theorem loadKeysPass_again_foreign
    {load next : KeyLoad}
    (again : loadKeysPass ssl heap load = .again next) :
    load.file.find? isForeign = next.file.find? isForeign ∧
      next.unknown = load.unknown := by
  simp only [loadKeysPass] at again
  split at again
  · cases again
  · obtain ⟨_, ok, rest, silent⟩ := addKeyLine_again again [] []
    have line :=
      loadKeyLine_diagnosed load.file (heap load.aes.mallocCalls)
        (heap (load.aes.mallocCalls + 1)) load.keyLen load.nonceLen
    exact ⟨(line.passedOver ok).trans (by rw [rest]), silent⟩

/-- A pass that leaves reports the first foreign character, or nothing. -/
theorem loadKeysPass_leave_diagnosed
    {load final : KeyLoad}
    {failure : FileError}
    (silent : load.unknown = none)
    (leave : loadKeysPass ssl heap load = .leave failure final) :
    final.Diagnosed load.file failure := by
  simp only [loadKeysPass] at leave
  split at leave
  · cases leave
    exact .other (by decide) silent
  · have line :=
      loadKeyLine_diagnosed load.file (heap load.aes.mallocCalls)
        (heap (load.aes.mallocCalls + 1)) load.keyLen load.nonceLen
    rcases (addKeyLine_leave leave [] []).2 with
      ⟨_, rfl, unknown⟩ | ⟨_, rfl, unknown⟩
    · exact
        { reported := unknown ▸ line.reported
          silent := unknown ▸ line.silent }
    · exact .other (by decide) (unknown.trans silent)

variable (ssl) in
/-- Setting the keys that were loaded prints nothing about the file. -/
theorem setLoadedKeys_silent
    (load : KeyLoad) :
    (setLoadedKeys ssl load).unknown = load.unknown ∧
      (setLoadedKeys ssl load).result ≠ .keyInvalidCharacter := by
  unfold setLoadedKeys
  split
  · exact ⟨rfl, by simp⟩
  · refine ⟨rfl, ?_⟩
    simp only
    split
    · decide
    · decide

/--
`load_keys` prints the first foreign character of its file where it refuses
the file for it, and nothing otherwise.
-/
theorem loadKeys_unknown
    {contents : List Char}
    {state : AesState}
    {loaded : Loaded}
    (read : loadKeys ssl heap contents state = some loaded) :
    (loaded.result = .keyInvalidCharacter →
      loaded.unknown = contents.find? isForeign ∧
        loaded.unknown.isSome) ∧
      (loaded.result ≠ .keyInvalidCharacter → loaded.unknown = none) := by
  have diagnosed :
      ∀ {failure : FileError} {final : KeyLoad},
        (loadKeysLoop ssl heap).run (contents.length + 1)
            (loadStart contents state) =
          .left failure final →
        final.Diagnosed contents failure := by
    intro failure final left
    obtain ⟨passes, before, _, running, _, leave⟩ :=
      Loop.left_reached left
    obtain ⟨same, silent⟩ :=
      Loop.running_invariant
        (fun _ (load : KeyLoad) =>
          contents.find? isForeign = load.file.find? isForeign ∧
            load.unknown = none)
        ⟨rfl, rfl⟩
        (fun _ _ again ⟨same, silent⟩ =>
          let ⟨further, kept⟩ := loadKeysPass_again_foreign again
          ⟨same.trans further, kept.trans silent⟩)
        running
    have last := loadKeysPass_leave_diagnosed silent leave
    exact
      { reported := same ▸ last.reported
        silent := last.silent }
  unfold loadKeys at read
  split at read
  · next load left =>
      cases read
      obtain ⟨same, accepted⟩ := setLoadedKeys_silent ssl load
      have silent := (diagnosed left).silent (by decide)
      exact
        ⟨fun refused => absurd refused accepted,
          fun _ => same.trans silent⟩
  · next failure load _ left =>
      cases read
      exact ⟨(diagnosed left).reported, (diagnosed left).silent⟩
  · cases read
  · cases read

end File

end RdRand
