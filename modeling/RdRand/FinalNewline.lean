import RdRand.KeyLengths
import RdRand.KeyLines

namespace RdRand

/-!
# The newline at the end of a key file

A last line without a newline is read like the others, but then taken for the
end of the file.  Where it could have been added, or would have been an error,
the newline matters.
-/

open ControlLoop

/-- A state of the loop, with one more newline at the end of the file. -/
def KeyLoad.withNewline (load : KeyLoad) : KeyLoad :=
  { load with file := load.file ++ ['\n'] }

/-- Both loads have the same result, and the same keys if there are any. -/
structure SameLoaded (first second : Loaded) : Prop where
  result : first.result = second.result
  keys :
    first.result = .ok →
    first.state.cfg.keys.keys.slots = second.state.cfg.keys.keys.slots
  nonces :
    first.result = .ok →
    first.state.cfg.keys.nonces.slots =
      second.state.cfg.keys.nonces.slots

/--
The files for which a final newline matters: lines that can be set, together
with a last line of digits that is dropped without it.
-/
structure NewlineMatters (file : List Char) (keyLen : Nat) : Prop where
  settable : keyLen = 8 ∨ keyLen = 16
  lines : ∀ line ∈ fileLines file, line = [] ∨ DigitLine keyLen line
  last : ∃ length, DigitLine length (lastLine file)
  nonempty : lastLine file ≠ []
  some :
    (∃ line ∈ fileLines file, line ≠ []) ∨
      DigitLine keyLen (lastLine file)

section Read

variable {file : List Char}

/-- Why a scan stops at the end of a file: all of it are digits that fit. -/
theorem scanLine_endOfFile
    (stop : (scanLine 0 file).stop = .endOfFile) :
    (∀ c ∈ file, isHexDigit c = true) ∧
      file.length ≤ rdrandMaxKeyLength * 2 + 1 := by
  by_cases overlong :
      rdrandMaxKeyLength * 2 + 1 < (file.takeWhile isHexDigit).length
  · rw [(scanLine_over overlong).2] at stop
    cases stop
  · have fits := Nat.le_of_not_lt overlong
    obtain ⟨_, ⟨whole, _⟩ | ⟨c, rest, _, _, stops, _⟩⟩ :=
      scanLine_fits fits
    · exact ⟨whole ▸ takeWhile_digits file, whole ▸ fits⟩
    · rw [stops] at stop
      split at stop <;> cases stop

/-- What is left of the file is what the scan has left. -/
theorem loadKeyLine_rest
    (file : List Char)
    (key nonce : List Byte)
    (keyLen nonceLen : Nat) :
    (loadKeyLine file key nonce keyLen nonceLen).rest =
      (scanLine 0 file).rest := by
  unfold loadKeyLine
  simp only
  split
  · rfl
  · rfl
  · split
    · rfl
    · split
      · rfl
      · split <;> rfl

/-- A newline at the end changes a line only where the end of file is met. -/
theorem loadKeyLine_newline
    {key nonce : List Byte}
    {keyLen nonceLen : Nat}
    (notEof :
      (loadKeyLine file key nonce keyLen nonceLen).result ≠ .eof) :
    ∃ rest,
      loadKeyLine (file ++ ['\n']) key nonce keyLen nonceLen =
          { loadKeyLine file key nonce keyLen nonceLen with
            rest := rest } ∧
        ((loadKeyLine file key nonce keyLen nonceLen).result = .ok →
          rest =
            (loadKeyLine file key nonce keyLen nonceLen).rest ++
              ['\n']) := by
  by_cases stops : (scanLine 0 file).stop = .endOfFile
  · obtain ⟨hex, fits⟩ := scanLine_endOfFile stops
    have scan :=
      scanLine_append_digits hex
        (show 0 + file.length ≤ rdrandMaxKeyLength * 2 + 1 by omega) []
    have longer :=
      scanLine_append_digits hex
        (show 0 + file.length ≤ rdrandMaxKeyLength * 2 + 1 by omega)
        ['\n']
    simp only [List.append_nil, scanLine] at scan
    rw [scanLine_stops (by decide), List.append_nil] at longer
    unfold loadKeyLine at notEof ⊢
    simp only [scan, longer] at notEof ⊢
    split at notEof
    · next uneven =>
        simp only [if_pos uneven]
        exact ⟨[], rfl, fun ok => absurd ok (by decide)⟩
    · exact absurd rfl notEof
  · have longer := scanLine_append stops ['\n']
    refine ⟨(scanLine 0 file).rest ++ ['\n'], ?_, ?_⟩
    · unfold loadKeyLine
      rw [longer]
      cases stop : (scanLine 0 file).stop <;> simp only [stop]
      · split
        · rfl
        · split
          · rfl
          · split <;> rfl
      · exact absurd stop stops
    · intro _
      rw [loadKeyLine_rest]

end Read

section Runs

variable
  {ssl : OpenSsl}
  {heap : Nat → List Byte}
  {load next final : KeyLoad}
  {failure : FileError}

/-- What is left of the file is all that becomes of the rest of a line. -/
theorem addKeyLine_again
    {line : KeyLine}
    (again : addKeyLine line load = .again next)
    (rest file : List Char) :
    addKeyLine { line with rest := rest } { load with file := file } =
        .again { next with file := rest } ∧
      line.result = .ok ∧
      next.file = line.rest ∧
      next.unknown = load.unknown := by
  unfold addKeyLine at again ⊢
  simp only at again ⊢
  split at again
  · cases again
  · next ok =>
      rw [if_neg ok]
      have result := Decidable.not_not.mp ok
      split at again
      · next skip =>
          cases again
          rw [if_pos skip]
          exact ⟨rfl, result, rfl, rfl⟩
      · next some =>
          rw [if_neg some]
          split at again
          · cases again
          · next inRange =>
              rw [if_neg inRange]
              generalize
                (if load.firstLen = 0 then _ else load.firstLen) =
                  firstLen at again ⊢
              split at again
              · cases again
              · next same =>
                  cases again
                  rw [if_neg same]
                  exact ⟨rfl, result, rfl, rfl⟩

/-- The same for a line that leaves the loop. -/
theorem addKeyLine_leave
    {line : KeyLine}
    (leave : addKeyLine line load = .leave failure final)
    (rest file : List Char) :
    addKeyLine { line with rest := rest } { load with file := file } =
        .leave failure { final with file := rest } ∧
      (line.result ≠ .ok ∧
          failure = line.result ∧
          final.unknown = line.unknown ∨
        line.result = .ok ∧
          failure = .keyNonceBadLength ∧
          final.unknown = load.unknown) := by
  unfold addKeyLine at leave ⊢
  simp only at leave ⊢
  split at leave
  · next notOk =>
      cases leave
      rw [if_pos notOk]
      exact ⟨rfl, .inl ⟨notOk, rfl, rfl⟩⟩
  · next ok =>
      rw [if_neg ok]
      have result := Decidable.not_not.mp ok
      split at leave
      · cases leave
      · next some =>
          rw [if_neg some]
          split at leave
          · next outOfRange =>
              cases leave
              rw [if_pos outOfRange]
              exact ⟨rfl, .inr ⟨result, rfl, rfl⟩⟩
          · next inRange =>
              rw [if_neg inRange]
              generalize
                (if load.firstLen = 0 then _ else load.firstLen) =
                  firstLen at leave ⊢
              split at leave
              · next different =>
                  cases leave
                  rw [if_pos different]
                  exact ⟨rfl, .inr ⟨result, rfl, rfl⟩⟩
              · cases leave

/-- A pass that goes on does so with a newline at the end, too. -/
theorem loadKeysPass_again_newline
    (again : loadKeysPass ssl heap load = .again next) :
    loadKeysPass ssl heap load.withNewline = .again next.withNewline := by
  by_cases allocates : Allocates ssl load.aes.mallocCalls
  · rw [loadKeysPass_allocates heap allocates] at again
    obtain ⟨_, ok, file, _⟩ := addKeyLine_again again [] []
    obtain ⟨rest, line, longer⟩ :=
      loadKeyLine_newline (by rw [ok]; exact nofun)
    rw [loadKeysPass_allocates heap
      (show Allocates ssl load.withNewline.aes.mallocCalls from allocates)]
    have added := (addKeyLine_again again rest (load.file ++ ['\n'])).1
    rw [← line, longer ok, ← file] at added
    exact added
  · rw [loadKeysPass_failed heap allocates] at again
    cases again

/-- A pass that leaves with an error does so with a newline at the end, too. -/
theorem loadKeysPass_leave_newline
    (leave : loadKeysPass ssl heap load = .leave failure final)
    (notEof : failure ≠ .eof) :
    ∃ other,
      loadKeysPass ssl heap load.withNewline = .leave failure other := by
  by_cases allocates : Allocates ssl load.aes.mallocCalls
  · rw [loadKeysPass_allocates heap allocates] at leave
    obtain ⟨_, cause⟩ := addKeyLine_leave leave [] []
    have notAtEnd :
        (loadKeyLine load.file (heap load.aes.mallocCalls)
          (heap (load.aes.mallocCalls + 1)) load.keyLen
          load.nonceLen).result ≠ .eof := by
      intro atEnd
      rcases cause with ⟨_, same, _⟩ | ⟨ok, _⟩
      · exact notEof (same.trans atEnd)
      · rw [atEnd] at ok
        cases ok
    obtain ⟨rest, line, _⟩ := loadKeyLine_newline notAtEnd
    rw [loadKeysPass_allocates heap
      (show Allocates ssl load.withNewline.aes.mallocCalls from allocates)]
    have left := (addKeyLine_leave leave rest (load.file ++ ['\n'])).1
    rw [← line] at left
    exact ⟨_, left⟩
  · rw [loadKeysPass_failed heap allocates] at leave
    cases leave
    exact
      ⟨_, loadKeysPass_failed heap
        (show ¬ Allocates ssl load.withNewline.aes.mallocCalls from
          allocates)⟩

/-- A run that goes on does so with a newline at the end, too. -/
theorem loadKeysLoop_newline
    {passes : Nat}
    (running :
      (loadKeysLoop ssl heap).run passes load = .running next) :
    (loadKeysLoop ssl heap).run passes load.withNewline =
      .running next.withNewline := by
  induction passes generalizing load with
  | zero =>
      cases running
      rfl
  | succ passes inductionHypothesis =>
      cases pass : loadKeysPass ssl heap load with
      | leave failure final =>
          rw [Loop.run_leave rfl pass] at running
          cases running
      | again middle =>
          rw [Loop.run_again rfl pass] at running
          rw [Loop.run_again rfl (loadKeysPass_again_newline pass)]
          exact inductionHypothesis running

end Runs

section Set

variable
  {ssl : OpenSsl}
  (malloc : ∀ call, ssl.mallocOk call = true)
  {load other : KeyLoad}

include malloc

/-- Setting the keys that have been loaded succeeds for two lengths. -/
theorem setLoadedKeys_result (load : KeyLoad) :
    (setLoadedKeys ssl load).result =
      if load.amount ≠ 0 ∧ (load.firstLen = 8 ∨ load.firstLen = 16) then
        .ok
      else
        .keyNonceBadLength := by
  unfold setLoadedKeys
  split
  · next nothing =>
      rw [if_neg (fun both => both.1 nothing)]
  · simp only [rdrandSetAesKeys_success_iff malloc]

/-- The slots that loaded keys are set into. -/
theorem setLoadedKeys_slots
    (ok : (setLoadedKeys ssl load).result = .ok) :
    (setLoadedKeys ssl load).state.cfg.keys.keys.slots =
        (copyKeys load.keys load.firstLen
          { identity := none
            slots :=
              List.replicate load.amount
                (List.replicate load.firstLen 0) }).slots ∧
      (setLoadedKeys ssl load).state.cfg.keys.nonces.slots =
        (copyKeys load.nonces (load.firstLen / 2)
          { identity := none
            slots :=
              List.replicate load.amount
                (List.replicate load.firstLen 0) }).slots := by
  rw [setLoadedKeys_result malloc] at ok
  split at ok
  · next settable =>
      have success :
          (rdrandSetAesKeys ssl load.amount load.firstLen load.keys
            load.nonces load.aes).success = true :=
        (rdrandSetAesKeys_success_iff malloc).mpr settable
      unfold setLoadedKeys
      rw [if_neg settable.1]
      exact rdrandSetAesKeys_slots success
  · cases ok

/-- There is a slot for each key that has been loaded. -/
theorem setLoadedKeys_amount
    (ok : (setLoadedKeys ssl load).result = .ok) :
    (setLoadedKeys ssl load).state.cfg.keys.keys.slots.length =
      load.amount := by
  rw [(setLoadedKeys_slots malloc ok).1]
  simp [copyKeys]

/-- The keys that have been loaded decide about those that are set. -/
theorem setLoadedKeys_same
    (keys : load.keys = other.keys)
    (nonces : load.nonces = other.nonces)
    (firstLen : load.firstLen = other.firstLen) :
    SameLoaded (setLoadedKeys ssl load) (setLoadedKeys ssl other) := by
  have amount : load.amount = other.amount := congrArg List.length keys
  have result :
      (setLoadedKeys ssl load).result = (setLoadedKeys ssl other).result := by
    rw [setLoadedKeys_result malloc, setLoadedKeys_result malloc, amount,
      firstLen]
  refine ⟨result, ?_, ?_⟩
  · intro ok
    rw [(setLoadedKeys_slots malloc ok).1,
      (setLoadedKeys_slots malloc (result ▸ ok)).1, keys, amount, firstLen]
  · intro ok
    rw [(setLoadedKeys_slots malloc ok).2,
      (setLoadedKeys_slots malloc (result ▸ ok)).2, nonces, amount,
      firstLen]

end Set

section Compare

variable
  {ssl : OpenSsl}
  {heap : Nat → List Byte}
  {file : List Char}
  {state : AesState}
  {count : Nat}
  {next final : KeyLoad}
  {failure : FileError}

/-- The run over the file with a newline, behind the lines of the file. -/
theorem KeyFileRun.running_newline
    (run : KeyFileRun ssl heap file state count next failure final) :
    (loadKeysLoop ssl heap).run count
          (loadStart (file ++ ['\n']) state) =
        .running next.withNewline ∧
      count + 2 ≤ (file ++ ['\n']).length + 1 := by
  have within : count ≤ (fileLines file).length := run.reads.within
  have enough := fileLines_length_le file
  refine ⟨loadKeysLoop_newline run.reads.runs, ?_⟩
  rw [List.length_append, List.length_singleton]
  omega

/-- An error is met with a newline at the end, too. -/
theorem KeyFileRun.error_newline
    (run : KeyFileRun ssl heap file state count next failure final)
    (notEof : failure ≠ .eof) :
    ∃ second,
      loadKeys ssl heap (file ++ ['\n']) state = some second ∧
        second.result = failure := by
  obtain ⟨running, enough⟩ := run.running_newline
  obtain ⟨other, leave⟩ := loadKeysPass_leave_newline run.pass notEof
  have left :=
    (Loop.run_add running 1).trans (Loop.run_leave rfl leave 0)
  refine ⟨_, loadKeys_of_left left (by omega), ?_⟩
  rw [if_neg notEof]

/-- The lines before a newline that matters are accepted. -/
theorem NewlineMatters.accepted
    {keyLen : Nat}
    (matters : NewlineMatters file keyLen)
    (malloc : ∀ call, ssl.mallocOk call = true) :
    AcceptedLines ssl (loadStart file state) (fileLines file) := by
  have long : rdrandMinKeyLength ≤ keyLen := by
    unfold rdrandMinKeyLength
    rcases matters.settable with rfl | rfl <;> decide
  have digits :
      ∀ line ∈ fileLines file, line ≠ [] → KeyDigits keyLen line :=
    fun line member nonempty =>
      ⟨(matters.lines line member).resolve_left nonempty, long⟩
  refine ⟨?_, ?_, fun _ _ => ⟨malloc _, malloc _⟩⟩
  · intro line member
    by_cases empty : line = []
    · exact .inl empty
    · exact .inr ⟨keyLen, digits line member empty, .inl rfl⟩
  · intro first inFirst second inSecond firstSome secondSome
    exact
      ((digits first inFirst firstSome).length_eq_iff
        (digits second inSecond secondSome)).mpr rfl

/-- Where a line is added, its length is the one that matters. -/
theorem NewlineMatters.firstLen
    {keyLen : Nat}
    (matters : NewlineMatters file keyLen)
    (adds : Adds (fileLines file) (loadStart file state) next)
    (some : keyCount (fileLines file) ≠ 0) :
    keyLen = next.firstLen := by
  rw [Ne, keyCount_eq_zero_iff] at some
  push Not at some
  obtain ⟨line, member, nonempty⟩ := some
  have spans := (adds.firstLen line member nonempty).spans
  have otherSpans :=
    ((matters.lines line member).resolve_left nonempty).spans
  omega

variable (malloc : ∀ call, ssl.mallocOk call = true)

include malloc

/-- After one more line, the end of the file is met. -/
theorem KeyFileRun.eof_newline
    (run : KeyFileRun ssl heap file state count next failure final)
    {middle : KeyLoad}
    (pass : loadKeysPass ssl heap next.withNewline = .again middle)
    (atEnd : middle.file = []) :
    ∃ more,
      loadKeys ssl heap (file ++ ['\n']) state =
          some (setLoadedKeys ssl more) ∧
        more.keys = middle.keys ∧
        more.nonces = middle.nonces ∧
        more.firstLen = middle.firstLen := by
  obtain ⟨running, enough⟩ := run.running_newline
  obtain ⟨result, more, leave, eof⟩ :=
    loadKeysPass_last heap
      (show '\n' ∉ middle.file by rw [atEnd]; exact List.not_mem_nil)
  have isEof : result = .eof :=
    eof.mpr
      ⟨⟨malloc _, malloc _⟩, 0, by
        rw [atEnd]
        exact ⟨nofun, rfl, by decide⟩⟩
  have leaves := loadKeysPass_leaves heap leave
  have left :=
    (Loop.run_add running 2).trans
      ((Loop.run_again rfl pass 1).trans (Loop.run_leave rfl leave 0))
  refine
    ⟨more, ?_, leaves.keys, leaves.nonces, leaves.firstLen isEof⟩
  rw [loadKeys_of_left left enough, if_pos isEof]

/-- An empty last line makes no difference. -/
theorem KeyFileRun.sameLoaded_empty
    (run : KeyFileRun ssl heap file state count next failure final)
    (eof : failure = .eof)
    (noLast : lastLine file = []) :
    ∃ second,
      loadKeys ssl heap (file ++ ['\n']) state = some second ∧
        SameLoaded (setLoadedKeys ssl final) second := by
  have atLast : next.withNewline.file = '\n' :: [] := by
    rw [KeyLoad.withNewline, run.atLast eof, noLast]
    rfl
  have pass :=
    loadKeysPass_skips heap
      (show Allocates ssl next.withNewline.aes.mallocCalls from
        ⟨malloc _, malloc _⟩) atLast
  obtain ⟨more, loaded, keys, nonces, firstLen⟩ :=
    run.eof_newline malloc pass rfl
  have leaves := run.leaves
  refine ⟨_, loaded, setLoadedKeys_same malloc ?_ ?_ ?_⟩
  · rw [keys, leaves.keys]
    rfl
  · rw [nonces, leaves.nonces]
    rfl
  · rw [firstLen, leaves.firstLen eof]
    rfl

/-- A last line of digits that can be added is one more key. -/
theorem KeyFileRun.taken_newline
    (run : KeyFileRun ssl heap file state count next failure final)
    (eof : failure = .eof)
    {keyLen : Nat}
    (digits : KeyDigits keyLen (lastLine file))
    (same : next.firstLen = 0 ∨ next.firstLen = keyLen) :
    ∃ more,
      loadKeys ssl heap (file ++ ['\n']) state =
          some (setLoadedKeys ssl more) ∧
        more.amount = final.amount + 1 ∧
        more.firstLen = keyLen := by
  have atLast : next.withNewline.file = lastLine file ++ '\n' :: [] := by
    rw [KeyLoad.withNewline, run.atLast eof]
  obtain ⟨key, nonce, pass⟩ :=
    loadKeysPass_adds heap
      (show Allocates ssl next.withNewline.aes.mallocCalls from
        ⟨malloc _, malloc _⟩) atLast digits same
  obtain ⟨more, loaded, keys, _, firstLen⟩ :=
    run.eof_newline malloc pass rfl
  refine ⟨more, loaded, ?_, firstLen⟩
  rw [KeyLoad.amount, keys, KeyLoad.amount, run.leaves.keys]
  exact List.length_append

/-- A last line of digits that cannot be added is an error. -/
theorem KeyFileRun.notTaken_newline
    (run : KeyFileRun ssl heap file state count next failure final)
    (eof : failure = .eof)
    {keyLen : Nat}
    (digits : DigitLine keyLen (lastLine file))
    (notTaken : ¬ next.Takes (lastLine file)) :
    ∃ second,
      loadKeys ssl heap (file ++ ['\n']) state = some second ∧
        second.result = .keyNonceBadLength := by
  obtain ⟨running, enough⟩ := run.running_newline
  have atLast : next.withNewline.file = lastLine file ++ '\n' :: [] := by
    rw [KeyLoad.withNewline, run.atLast eof]
  obtain ⟨other, leave⟩ :=
    loadKeysPass_badLength heap
      (show Allocates ssl next.withNewline.aes.mallocCalls from
        ⟨malloc _, malloc _⟩) atLast digits notTaken
  have left :=
    (Loop.run_add running 1).trans (Loop.run_leave rfl leave 0)
  exact ⟨_, loadKeys_of_left left (by omega), rfl⟩

/-- Two loads of different amounts are the same if neither is settable. -/
theorem sameLoaded_more_iff
    {load more : KeyLoad}
    (oneMore : more.amount = load.amount + 1)
    (settled :
      (setLoadedKeys ssl load).result = .ok →
      more.firstLen = 8 ∨ more.firstLen = 16) :
    SameLoaded (setLoadedKeys ssl load) (setLoadedKeys ssl more) ↔
      ¬ (more.firstLen = 8 ∨ more.firstLen = 16) := by
  have result := setLoadedKeys_result malloc more
  have some : more.amount ≠ 0 := by
    omega
  constructor
  · intro same settable
    rw [if_pos ⟨some, settable⟩] at result
    have firstOk : (setLoadedKeys ssl load).result = .ok :=
      same.result.trans result
    have slots := congrArg List.length (same.keys firstOk)
    rw [setLoadedKeys_amount malloc firstOk,
      setLoadedKeys_amount malloc result] at slots
    omega
  · intro unsettable
    rw [if_neg (fun both => unsettable both.2)] at result
    have firstBad :
        (setLoadedKeys ssl load).result = .keyNonceBadLength := by
      have first := setLoadedKeys_result malloc load
      split at first
      · exact absurd (settled first) unsettable
      · exact first
    refine ⟨firstBad.trans result.symm, ?_, ?_⟩
    · rw [firstBad]
      exact nofun
    · rw [firstBad]
      exact nofun

/-- The newline matters for a last line that can be added and set. -/
theorem KeyFileRun.sameLoaded_taken_iff
    (run : KeyFileRun ssl heap file state count next failure final)
    (eof : failure = .eof)
    {length : Nat}
    (digits : KeyDigits length (lastLine file))
    (sameLen : next.firstLen = 0 ∨ next.firstLen = length) :
    ∃ second,
      loadKeys ssl heap (file ++ ['\n']) state = some second ∧
        (SameLoaded (setLoadedKeys ssl final) second ↔
          ∀ keyLen, ¬ NewlineMatters file keyLen) := by
  obtain ⟨adds, amount, firstLen⟩ := run.adds_eof eof
  obtain ⟨more, loaded, oneMore, moreLen⟩ :=
    run.taken_newline malloc eof digits sameLen
  have started :
      ∀ line ∈ fileLines file, line ≠ [] → next.firstLen = length := by
    intro line member nonempty
    have notShort := (adds.firstLen line member nonempty).notShort
    unfold rdrandMinKeyLength at notShort
    omega
  refine ⟨_, loaded, ?_⟩
  rw [sameLoaded_more_iff malloc oneMore ?_, moreLen]
  · constructor
    · intro unsettable keyLen matters
      have keyLen_eq : keyLen = length := by
        rcases matters.some with ⟨line, member, nonempty⟩ | lastDigits
        · have spans := (adds.firstLen line member nonempty).spans
          have otherSpans :=
            ((matters.lines line member).resolve_left nonempty).spans
          have same := started line member nonempty
          omega
        · have spans := digits.spans
          have otherSpans := lastDigits.spans
          omega
      exact unsettable (keyLen_eq ▸ matters.settable)
    · intro never settable
      refine never length ⟨settable, ?_, ?_, digits.nonempty, ?_⟩
      · intro line member
        by_cases empty : line = []
        · exact .inl empty
        · have lineDigits := adds.firstLen line member empty
          rw [started line member empty] at lineDigits
          exact .inr lineDigits.toDigitLine
      · exact ⟨length, digits.toDigitLine⟩
      · exact .inr digits.toDigitLine
  · intro ok
    rw [setLoadedKeys_result malloc, firstLen, amount] at ok
    split at ok
    · next settable =>
        have nonempty := settable.1
        rw [Ne, keyCount_eq_zero_iff] at nonempty
        push Not at nonempty
        obtain ⟨line, member, lineSome⟩ := nonempty
        rw [moreLen, ← started line member lineSome]
        exact settable.2
    · cases ok

/-- The newline matters for a last line that cannot be added to some. -/
theorem KeyFileRun.sameLoaded_notTaken_iff
    (run : KeyFileRun ssl heap file state count next failure final)
    (eof : failure = .eof)
    (nonempty : lastLine file ≠ [])
    {length : Nat}
    (digits : DigitLine length (lastLine file))
    (notTaken : ¬ next.Takes (lastLine file)) :
    ∃ second,
      loadKeys ssl heap (file ++ ['\n']) state = some second ∧
        (SameLoaded (setLoadedKeys ssl final) second ↔
          ∀ keyLen, ¬ NewlineMatters file keyLen) := by
  obtain ⟨adds, amount, firstLen⟩ := run.adds_eof eof
  obtain ⟨second, loaded, result⟩ :=
    run.notTaken_newline malloc eof digits notTaken
  refine ⟨second, loaded, ?_⟩
  have first := setLoadedKeys_result malloc final
  rw [amount, firstLen] at first
  constructor
  · intro same keyLen matters
    have some : keyCount (fileLines file) ≠ 0 := by
      intro none
      have start : next.firstLen = 0 := adds.kept none
      rcases matters.some with ⟨line, member, lineSome⟩ | lastDigits
      · exact lineSome (keyCount_eq_zero_iff.mp none line member)
      · refine
          notTaken (.inr ⟨keyLen, ⟨lastDigits, ?_⟩, .inl start⟩)
        unfold rdrandMinKeyLength
        rcases matters.settable with rfl | rfl <;> decide
    have settable := matters.settable
    rw [matters.firstLen adds some] at settable
    rw [if_pos ⟨some, settable⟩, same.result, result] at first
    cases first
  · intro never
    split at first
    · next settable =>
        exfalso
        have some := settable.1
        rw [Ne, keyCount_eq_zero_iff] at some
        push Not at some
        refine
          never next.firstLen
            ⟨settable.2, ?_, ⟨length, digits⟩, nonempty, .inl some⟩
        intro line member
        by_cases empty : line = []
        · exact .inl empty
        · exact .inr (adds.firstLen line member empty).toDigitLine
    · refine ⟨first.trans result.symm, ?_, ?_⟩
      · rw [first]
        exact nofun
      · rw [first]
        exact nofun

/-- The newline where the end of the file is met without an error. -/
theorem KeyFileRun.sameLoaded_eof_iff
    (run : KeyFileRun ssl heap file state count next failure final)
    (eof : failure = .eof) :
    ∃ second,
      loadKeys ssl heap (file ++ ['\n']) state = some second ∧
        (SameLoaded (setLoadedKeys ssl final) second ↔
          ∀ keyLen, ¬ NewlineMatters file keyLen) := by
  obtain ⟨_, _, length, digits⟩ := run.eof.mp eof
  by_cases noLast : lastLine file = []
  · obtain ⟨second, secondLoaded, same⟩ :=
      run.sameLoaded_empty malloc eof noLast
    exact
      ⟨second, secondLoaded,
        iff_of_true same fun _ matters => matters.nonempty noLast⟩
  · by_cases takes : next.Takes (lastLine file)
    · obtain ⟨keyLen, keyDigits, same⟩ := takes.resolve_left noLast
      exact run.sameLoaded_taken_iff malloc eof keyDigits same
    · exact run.sameLoaded_notTaken_iff malloc eof noLast digits takes

/--
A final newline does not matter, unless the last line consists of digits and
the lines before it can be set, or it can be set itself.
-/
theorem loadKeys_finalNewline_iff
    (heap : Nat → List Byte)
    (file : List Char)
    (state : AesState) :
    ∃ first second,
      loadKeys ssl heap file state = some first ∧
        loadKeys ssl heap (file ++ ['\n']) state = some second ∧
        (SameLoaded first second ↔
          ∀ keyLen, ¬ NewlineMatters file keyLen) := by
  obtain ⟨count, next, failure, final, run⟩ :=
    loadKeys_run ssl heap file state
  have loaded := run.loadKeys_eq
  by_cases eof : failure = .eof
  · rw [if_pos eof] at loaded
    obtain ⟨second, secondLoaded, same⟩ :=
      run.sameLoaded_eof_iff malloc eof
    exact ⟨_, second, loaded, secondLoaded, same⟩
  · rw [if_neg eof] at loaded
    obtain ⟨second, secondLoaded, result⟩ := run.error_newline eof
    refine ⟨_, second, loaded, secondLoaded, iff_of_true ?_ ?_⟩
    · exact
        ⟨result.symm, fun ok => absurd ok run.leaves.notOk,
          fun ok => absurd ok run.leaves.notOk⟩
    · intro keyLen matters
      exact
        eof
          (run.eof.mpr
            ⟨matters.accepted malloc, ⟨malloc _, malloc _⟩,
              matters.last⟩)

end Compare

/-- Two lines and a last one, each with a key of 16 bytes. -/
theorem loadKeys_finalNewline_iff_threeLines :
    ∃ first second,
      loadKeys .sample (fun _ => List.replicate 32 7)
          ((List.replicate 24 ['1', 'a']).flatten ++
            '\n' :: '\n' :: (List.replicate 24 ['B', '2']).flatten)
          aesStart =
        some first ∧
      loadKeys .sample (fun _ => List.replicate 32 7)
          ((List.replicate 24 ['1', 'a']).flatten ++
              '\n' :: '\n' :: (List.replicate 24 ['B', '2']).flatten ++
            ['\n'])
          aesStart =
        some second ∧
      (SameLoaded first second ↔
        ∀ keyLen,
          ¬ NewlineMatters
            ((List.replicate 24 ['1', 'a']).flatten ++
              '\n' :: '\n' :: (List.replicate 24 ['B', '2']).flatten)
            keyLen) :=
  loadKeys_finalNewline_iff (fun _ => rfl) _ _ _

/--
A single line with a key of 16 bytes is an error without a newline, and a key
with one.
-/
theorem loadKeys_drops_lastLine :
    let line := (List.replicate 24 ['1', 'a']).flatten
    (loadKeys .sample (fun _ => List.replicate 32 7) line aesStart).map
          Loaded.result =
        some .keyNonceBadLength ∧
      (loadKeys .sample (fun _ => List.replicate 32 7) (line ++ ['\n'])
          aesStart).map Loaded.result =
        some .ok := by
  decide +kernel

end RdRand
