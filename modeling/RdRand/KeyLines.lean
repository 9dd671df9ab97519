import RdRand.KeyLineScan
import RdRand.TextLines

namespace RdRand

/-!
# Key files line by line

`load_keys` goes through the lines of its file.  It accepts empty lines and
lines of hexadecimal digits of one length, and stops at the first other line.
Whatever it does with a line does not depend on what follows its newline.
-/

open ControlLoop Hexadecimal TextLines

/-- The lines of a file that a newline ends. -/
def fileLines (file : List Char) : List (List Char) :=
  terminated '\n' file

/-- The last line of a file, which no newline ends. -/
def lastLine (file : List Char) : List Char :=
  unterminated '\n' file

/-- A line whose key is long enough to be accepted. -/
structure KeyDigits (keyLen : Nat) (line : List Char) : Prop
    extends DigitLine keyLen line where
  notShort : rdrandMinKeyLength ≤ keyLen

/-- The number of lines that are not empty. -/
def keyCount (lines : List (List Char)) : Nat :=
  lines.countP fun line => !line.isEmpty

@[simp] theorem keyCount_nil : keyCount [] = 0 :=
  rfl

theorem keyCount_cons
    (line : List Char)
    (lines : List (List Char)) :
    keyCount (line :: lines) =
      (if line = [] then 0 else 1) + keyCount lines := by
  cases line <;> simp [keyCount, Nat.add_comm]

/-- No line counts if and only if all are empty. -/
theorem keyCount_eq_zero_iff
    {lines : List (List Char)} :
    keyCount lines = 0 ↔ ∀ line ∈ lines, line = [] := by
  simp [keyCount]

/-- A line that can be added to what has been loaded. -/
def KeyLoad.Takes (load : KeyLoad) (line : List Char) : Prop :=
  line = [] ∨
    ∃ keyLen,
      KeyDigits keyLen line ∧
        (load.firstLen = 0 ∨ load.firstLen = keyLen)

section Passes

variable
  {ssl : OpenSsl}
  (heap : Nat → List Byte)
  {load : KeyLoad}
  {line rest : List Char}

/-- What a pass over an empty line leads to. -/
theorem loadKeysPass_skips
    (allocates : Allocates ssl load.aes.mallocCalls)
    (file : load.file = '\n' :: rest) :
    loadKeysPass ssl heap load =
      .again
        { load with
          file := rest
          keyLen := 0
          nonceLen := 0
          aes := load.aesAfter 1 } := by
  rw [loadKeysPass_allocates heap allocates, file, loadKeyLine_empty]
  rfl

/-- What a pass over a line of digits leads to, if the line can be added. -/
theorem loadKeysPass_adds
    (allocates : Allocates ssl load.aes.mallocCalls)
    (file : load.file = line ++ '\n' :: rest)
    {keyLen : Nat}
    (digitLine : KeyDigits keyLen line)
    (same : load.firstLen = 0 ∨ load.firstLen = keyLen) :
    ∃ key nonce,
      loadKeysPass ssl heap load =
        .again
          { file := rest
            keyLen := keyLen
            nonceLen := keyLen / 2
            firstLen := keyLen
            keys := load.keys ++ [key]
            nonces := load.nonces ++ [nonce]
            unknown := load.unknown
            aes := load.aesAfter 1 } := by
  have notShort := digitLine.notShort
  have notLong := digitLine.keyLen_le
  have positive : 0 < keyLen := Nat.lt_of_lt_of_le (by decide) notShort
  have inRange :
      ¬ (rdrandMaxKeyLength < keyLen ∨ keyLen < rdrandMinKeyLength) := by
    omega
  have firstLen :
      (if load.firstLen = 0 then keyLen else load.firstLen) = keyLen := by
    split
    · rfl
    · next started =>
        exact same.resolve_left started
  rw [loadKeysPass_allocates heap allocates, file,
    loadKeyLine_digits digitLine.toDigitLine positive]
  unfold addKeyLine
  simp only [ne_eq, not_true_eq_false, if_false, inRange,
    Nat.ne_of_gt positive, firstLen]
  exact ⟨_, _, rfl⟩

/-- A line of digits that cannot be added has a bad length. -/
theorem loadKeysPass_badLength
    (allocates : Allocates ssl load.aes.mallocCalls)
    (file : load.file = line ++ '\n' :: rest)
    {keyLen : Nat}
    (digitLine : DigitLine keyLen line)
    (notTaken : ¬ load.Takes line) :
    ∃ final,
      loadKeysPass ssl heap load = .leave .keyNonceBadLength final := by
  have positive : 0 < keyLen := by
    by_contra zero
    have spans := digitLine.spans
    exact notTaken (.inl (List.length_eq_zero_iff.mp (by omega)))
  rw [loadKeysPass_allocates heap allocates, file,
    loadKeyLine_digits digitLine positive]
  unfold addKeyLine
  simp only [ne_eq, not_true_eq_false, if_false, Nat.ne_of_gt positive]
  split
  · exact ⟨_, rfl⟩
  · next inRange =>
      have different :
          ¬ (if load.firstLen = 0 then keyLen else load.firstLen) =
            keyLen := by
        intro same
        refine notTaken (.inr ⟨keyLen, ⟨digitLine, by omega⟩, ?_⟩)
        split at same
        · next start => exact .inl start
        · exact .inr same
      rw [if_pos different]
      exact ⟨_, rfl⟩

/-- A pass over a line that cannot be added leaves the loop with an error. -/
theorem loadKeysPass_rejects
    (noNewline : '\n' ∉ line)
    (file : load.file = line ++ '\n' :: rest)
    (rejected : ¬ (Allocates ssl load.aes.mallocCalls ∧ load.Takes line)) :
    ∃ failure final,
      loadKeysPass ssl heap load = .leave failure final ∧
        failure ≠ .ok ∧
        failure ≠ .eof := by
  by_cases allocates : Allocates ssl load.aes.mallocCalls
  · by_cases digits : ∃ keyLen, DigitLine keyLen line
    · obtain ⟨keyLen, digitLine⟩ := digits
      obtain ⟨final, leave⟩ :=
        loadKeysPass_badLength heap allocates file digitLine
          (fun takes => rejected ⟨allocates, takes⟩)
      exact ⟨_, final, leave, nofun, nofun⟩
    · have noDigits : ∀ keyLen, ¬ DigitLine keyLen line :=
        fun keyLen digitLine => digits ⟨keyLen, digitLine⟩
      have broken :=
        loadKeyLine_error noNewline noDigits rest
          (heap load.aes.mallocCalls) (heap (load.aes.mallocCalls + 1))
          load.keyLen load.nonceLen
      rw [loadKeysPass_allocates heap allocates, file]
      unfold addKeyLine
      rcases broken with badLength | badCharacter
      · simp only [badLength]
        exact ⟨_, _, rfl, nofun, nofun⟩
      · simp only [badCharacter]
        exact ⟨_, _, rfl, nofun, nofun⟩
  · rw [loadKeysPass_failed heap allocates]
    exact ⟨_, _, rfl, nofun, nofun⟩

end Passes

/--
Lines that are accepted from a state of the loop on: each can be added, those
that are not empty are of one length, and every allocation for them succeeds.
-/
structure AcceptedLines
    (ssl : OpenSsl)
    (load : KeyLoad)
    (lines : List (List Char)) : Prop where
  taken : ∀ line ∈ lines, load.Takes line
  same :
    ∀ first ∈ lines,
      ∀ second ∈ lines,
        first ≠ [] → second ≠ [] → first.length = second.length
  allocates :
    ∀ index,
      index < lines.length →
      Allocates ssl (load.aes.mallocCalls + 2 * index)

/-- What some accepted lines add to the variables of the loop. -/
structure Adds
    (lines : List (List Char))
    (load next : KeyLoad) : Prop where
  amount : next.amount = load.amount + keyCount lines
  aes : next.aes = load.aesAfter lines.length
  kept : keyCount lines = 0 → next.firstLen = load.firstLen
  firstLen :
    ∀ line ∈ lines, line ≠ [] → KeyDigits next.firstLen line

section Reading

variable
  {ssl : OpenSsl}
  (heap : Nat → List Byte)
  {load next : KeyLoad}
  {line : List Char}
  {lines : List (List Char)}

/-- A line of a key is not empty. -/
theorem KeyDigits.nonempty
    {keyLen : Nat}
    (digits : KeyDigits keyLen line) :
    line ≠ [] := by
  rintro rfl
  have spans := digits.spans
  have notShort := digits.notShort
  unfold rdrandMinKeyLength at notShort
  simp only [List.length_nil] at spans
  omega

/-- Lines of keys of the same length are equally long. -/
theorem KeyDigits.length_eq_iff
    {keyLen otherLen : Nat}
    {other : List Char}
    (digits : KeyDigits keyLen line)
    (otherDigits : KeyDigits otherLen other) :
    line.length = other.length ↔ keyLen = otherLen := by
  have spans := digits.spans
  have otherSpans := otherDigits.spans
  omega

/-- What a first line leaves of the state decides about the later ones. -/
theorem takes_next_iff
    (added : Adds [line] load next)
    (takes : load.Takes line)
    {later : List Char} :
    next.Takes later ↔
      load.Takes later ∧
        (line ≠ [] → later ≠ [] → line.length = later.length) := by
  by_cases empty : line = []
  · have kept : next.firstLen = load.firstLen :=
      added.kept (by rw [empty]; rfl)
    simp only [KeyLoad.Takes, kept, empty, ne_eq, not_true_eq_false,
      false_implies, and_true]
  · have digits := added.firstLen line List.mem_cons_self empty
    obtain ⟨keyLen, keyDigits, same⟩ := takes.resolve_left empty
    have sameLen : keyLen = next.firstLen :=
      (keyDigits.length_eq_iff digits).mp rfl
    subst sameLen
    constructor
    · rintro (nothing | ⟨laterLen, laterDigits, laterSame⟩)
      · exact ⟨.inl nothing, fun _ some => absurd nothing some⟩
      · have equal : laterLen = next.firstLen := by
          have notShort := keyDigits.notShort
          unfold rdrandMinKeyLength at notShort
          omega
        rw [equal] at laterDigits
        exact
          ⟨.inr ⟨_, laterDigits, same⟩,
            fun _ _ => (digits.length_eq_iff laterDigits).mpr rfl⟩
    · rintro ⟨nothing | ⟨laterLen, laterDigits, _⟩, equal⟩
      · exact .inl nothing
      · refine .inr ⟨laterLen, laterDigits, .inr ?_⟩
        exact
          (digits.length_eq_iff laterDigits).mp
            (equal empty laterDigits.nonempty)

/-- Accepted lines are a first one, and others that are accepted after it. -/
theorem acceptedLines_cons_iff
    (added : Adds [line] load next)
    (takes : load.Takes line) :
    AcceptedLines ssl load (line :: lines) ↔
      Allocates ssl load.aes.mallocCalls ∧
        AcceptedLines ssl next lines := by
  have calls :
      next.aes.mallocCalls = load.aes.mallocCalls + 2 := by
    rw [added.aes]
    rfl
  constructor
  · rintro ⟨taken, same, allocates⟩
    refine ⟨allocates 0 (Nat.succ_pos _), ?_, ?_, ?_⟩
    · intro later member
      refine (takes_next_iff added takes).mpr ⟨?_, ?_⟩
      · exact taken later (List.mem_cons_of_mem line member)
      · exact
          same line List.mem_cons_self later
            (List.mem_cons_of_mem line member)
    · intro first inFirst second inSecond
      exact
        same first (List.mem_cons_of_mem line inFirst) second
          (List.mem_cons_of_mem line inSecond)
    · intro index below
      have shifted := allocates (index + 1) (Nat.succ_lt_succ below)
      rwa [calls, show load.aes.mallocCalls + 2 + 2 * index =
        load.aes.mallocCalls + 2 * (index + 1) by omega]
  · rintro ⟨first, taken, same, allocates⟩
    have both :
        ∀ later ∈ lines,
          load.Takes later ∧
            (line ≠ [] → later ≠ [] → line.length = later.length) :=
      fun later member =>
        (takes_next_iff added takes).mp (taken later member)
    refine ⟨?_, ?_, ?_⟩
    · exact
        List.forall_mem_cons.mpr
          ⟨takes, fun later member => (both later member).1⟩
    · intro one inOne other inOther
      rcases List.mem_cons.mp inOne with rfl | oneLater
      · rcases List.mem_cons.mp inOther with rfl | otherLater
        · exact fun _ _ => rfl
        · exact (both other otherLater).2
      · rcases List.mem_cons.mp inOther with rfl | otherLater
        · exact fun some line => ((both one oneLater).2 line some).symm
        · exact same one oneLater other otherLater
    · rintro (_ | index) below
      · exact first
      · have later := allocates index (Nat.lt_of_succ_lt_succ below)
        rwa [calls, show load.aes.mallocCalls + 2 + 2 * index =
          load.aes.mallocCalls + 2 * (index + 1) by omega] at later

/-- Adding nothing. -/
theorem Adds.nil (load : KeyLoad) : Adds [] load load where
  amount := rfl
  aes := rfl
  kept := fun _ => rfl
  firstLen := nofun

/-- Adding a line, and then some others that are accepted. -/
theorem Adds.cons
    {middle : KeyLoad}
    (first : Adds [line] load middle)
    (accepted : AcceptedLines ssl middle lines)
    (later : Adds lines middle next) :
    Adds (line :: lines) load next := by
  refine ⟨?_, ?_, ?_, ?_⟩
  · rw [later.amount, first.amount, keyCount_cons, keyCount_cons,
      keyCount_nil, Nat.add_zero, Nat.add_assoc]
  · rw [later.aes, KeyLoad.aesAfter, first.aes, KeyLoad.aesAfter,
      KeyLoad.aesAfter, List.length_cons]
    simp only [List.length_cons, List.length_nil]
    congr 1
    omega
  · intro nothing
    rw [keyCount_cons] at nothing
    rw [later.kept (by omega), first.kept]
    rw [keyCount_cons, keyCount_nil]
    omega
  · intro other member some
    rcases List.mem_cons.mp member with rfl | inLines
    · have digits := first.firstLen other List.mem_cons_self some
      by_cases nothing : keyCount lines = 0
      · rwa [later.kept nothing]
      · rw [keyCount_eq_zero_iff] at nothing
        push Not at nothing
        obtain ⟨another, inLines, nonempty⟩ := nothing
        have anotherDigits := later.firstLen another inLines nonempty
        obtain ⟨keyLen, keyDigits, same⟩ :=
          (accepted.taken another inLines).resolve_left nonempty
        have sameLen : keyLen = next.firstLen :=
          (keyDigits.length_eq_iff anotherDigits).mp rfl
        have notShort := digits.notShort
        unfold rdrandMinKeyLength at notShort
        rw [sameLen] at same
        rwa [← same.resolve_left (by omega)]
    · exact later.firstLen other inLines some

/-- A line that can be added is, and the loop goes on behind it. -/
theorem loadKeysPass_takes
    (allocates : Allocates ssl load.aes.mallocCalls)
    (takes : load.Takes line)
    {rest : List Char}
    (file : load.file = line ++ '\n' :: rest) :
    ∃ next,
      loadKeysPass ssl heap load = .again next ∧
        next.file = rest ∧
        Adds [line] load next := by
  rcases takes with rfl | ⟨keyLen, digits, same⟩
  · refine ⟨_, loadKeysPass_skips heap allocates file, rfl, rfl, rfl, ?_, ?_⟩
    · exact fun _ => rfl
    · intro other member some
      exact absurd (List.mem_singleton.mp member) some
  · obtain ⟨key, nonce, pass⟩ :=
      loadKeysPass_adds heap allocates file digits same
    refine ⟨_, pass, rfl, ?_, rfl, ?_, ?_⟩
    · rw [keyCount_cons, if_neg digits.nonempty]
      exact List.length_append
    · intro nothing
      rw [keyCount_cons, if_neg digits.nonempty] at nothing
      cases nothing
    · intro other member _
      rw [List.mem_singleton.mp member]
      exact digits

/-- The first lines of a file have been read, and the loop goes on. -/
structure KeyLoad.Reads
    (ssl : OpenSsl)
    (heap : Nat → List Byte)
    (load : KeyLoad)
    (count : Nat)
    (next : KeyLoad) : Prop where
  within : count ≤ (fileLines load.file).length
  accepted : AcceptedLines ssl load ((fileLines load.file).take count)
  adds : Adds ((fileLines load.file).take count) load next
  runs : (loadKeysLoop ssl heap).run count load = .running next

/-- Why no more lines of a file are read. -/
inductive ReadingEnds
    (ssl : OpenSsl)
    (heap : Nat → List Byte)
    (load : KeyLoad)
    (count : Nat)
    (next : KeyLoad) : Prop where
  | lastLine
      (all : count = (fileLines load.file).length)
      (file : next.file = lastLine load.file)
  | rejected
      (some : count < (fileLines load.file).length)
      (unaccepted :
        ¬ AcceptedLines ssl load
          ((fileLines load.file).take (count + 1)))
      {failure : FileError}
      {final : KeyLoad}
      (leaves : loadKeysPass ssl heap next = .leave failure final)
      (notOk : failure ≠ .ok)
      (notEof : failure ≠ .eof)

/-- No lines are accepted. -/
theorem AcceptedLines.nil (load : KeyLoad) :
    AcceptedLines ssl load [] :=
  ⟨nofun, nofun, nofun⟩

/-- A pass that has added the first line of the file. -/
structure KeyLoad.AddsLine
    (ssl : OpenSsl)
    (heap : Nat → List Byte)
    (load : KeyLoad)
    (line : List Char)
    (next : KeyLoad) : Prop where
  pass : loadKeysPass ssl heap load = .again next
  allocates : Allocates ssl load.aes.mallocCalls
  takes : load.Takes line
  adds : Adds [line] load next
  lines : fileLines load.file = line :: fileLines next.file
  lastLine : RdRand.lastLine load.file = RdRand.lastLine next.file

/-- A line that can be added is added by the pass over it. -/
theorem KeyLoad.AddsLine.of_takes
    (noNewline : '\n' ∉ line)
    {rest : List Char}
    (file : load.file = line ++ '\n' :: rest)
    (allocates : Allocates ssl load.aes.mallocCalls)
    (takes : load.Takes line) :
    ∃ next, load.AddsLine ssl heap line next ∧ next.file = rest := by
  obtain ⟨next, pass, atRest, adds⟩ :=
    loadKeysPass_takes heap allocates takes file
  refine ⟨next, ⟨pass, allocates, takes, adds, ?_, ?_⟩, atRest⟩
  · rw [file, atRest]
    exact terminated_line noNewline rest
  · rw [file, atRest]
    exact unterminated_line noNewline rest

/-- The lines read after a first one are read together with it. -/
theorem KeyLoad.AddsLine.reads
    {middle : KeyLoad}
    {count : Nat}
    (first : load.AddsLine ssl heap line middle)
    (later : middle.Reads ssl heap count next) :
    load.Reads ssl heap (count + 1) next where
  within := by
    rw [first.lines]
    exact Nat.succ_le_succ later.within
  accepted := by
    rw [first.lines]
    exact
      (acceptedLines_cons_iff first.adds first.takes).mpr
        ⟨first.allocates, later.accepted⟩
  adds := by
    rw [first.lines]
    exact first.adds.cons later.accepted later.adds
  runs := by
    rw [Loop.run_again rfl first.pass]
    exact later.runs

/-- What ends the reading after a first line ends the whole reading. -/
theorem KeyLoad.AddsLine.ends
    {middle : KeyLoad}
    {count : Nat}
    (first : load.AddsLine ssl heap line middle)
    (ends : ReadingEnds ssl heap middle count next) :
    ReadingEnds ssl heap load (count + 1) next := by
  cases ends with
  | lastLine all file =>
      refine .lastLine ?_ (file.trans first.lastLine.symm)
      rw [first.lines, List.length_cons, all]
  | rejected some unaccepted leaves notOk notEof =>
      refine .rejected ?_ ?_ leaves notOk notEof
      · rw [first.lines]
        exact Nat.succ_lt_succ some
      · rw [first.lines]
        exact fun whole =>
          unaccepted
            ((acceptedLines_cons_iff first.adds first.takes).mp whole).2

/-- Before any line is read. -/
theorem KeyLoad.Reads.start (load : KeyLoad) :
    load.Reads ssl heap 0 load :=
  ⟨Nat.zero_le _, .nil load, .nil load, rfl⟩

/-- A first line that is not added ends the reading. -/
theorem ReadingEnds.of_rejected
    (noNewline : '\n' ∉ line)
    {rest : List Char}
    (file : load.file = line ++ '\n' :: rest)
    (rejected :
      ¬ (Allocates ssl load.aes.mallocCalls ∧ load.Takes line)) :
    ReadingEnds ssl heap load 0 load := by
  have lines : fileLines load.file = line :: fileLines rest := by
    rw [file]
    exact terminated_line noNewline rest
  obtain ⟨failure, final, leaves, notOk, notEof⟩ :=
    loadKeysPass_rejects heap noNewline file rejected
  refine .rejected ?_ ?_ leaves notOk notEof
  · rw [lines]
    exact Nat.succ_pos _
  · rw [lines]
    intro accepted
    refine rejected ⟨accepted.allocates 0 (Nat.succ_pos _), ?_⟩
    exact accepted.taken line List.mem_cons_self

/-- The loop reads the lines of its file until one is rejected. -/
theorem loadKeysLoop_reads (load : KeyLoad) :
    ∃ count next,
      load.Reads ssl heap count next ∧
        ReadingEnds ssl heap load count next := by
  generalize shape : load.file = file
  induction file using lines_induction '\n'
    generalizing load with
  | last text noNewline =>
      refine ⟨0, load, .start heap load, .lastLine ?_ ?_⟩
      · rw [shape, fileLines, terminated_open noNewline]
        rfl
      · rw [shape]
        exact (unterminated_open noNewline).symm
  | line line rest noNewline inductionHypothesis =>
      by_cases taken :
          Allocates ssl load.aes.mallocCalls ∧ load.Takes line
      · obtain ⟨middle, first, atRest⟩ :=
          KeyLoad.AddsLine.of_takes heap noNewline shape taken.1 taken.2
        obtain ⟨count, next, reads, ends⟩ :=
          inductionHypothesis middle atRest
        exact
          ⟨count + 1, next, first.reads heap reads, first.ends heap ends⟩
      · exact
          ⟨0, load, .start heap load, .of_rejected heap noNewline shape taken⟩

/-- What a pass that leaves the loop has done to the variables. -/
structure Leaves (load : KeyLoad) (failure : FileError) (final : KeyLoad) :
    Prop where
  keys : final.keys = load.keys
  nonces : final.nonces = load.nonces
  aes : final.aes = load.aesAfter 1
  firstLen : failure = .eof → final.firstLen = load.firstLen
  notOk : failure ≠ .ok

theorem loadKeysPass_leaves
    {failure : FileError}
    {final : KeyLoad}
    (leave : loadKeysPass ssl heap load = .leave failure final) :
    Leaves load failure final := by
  by_cases allocates : Allocates ssl load.aes.mallocCalls
  · rw [loadKeysPass_allocates heap allocates] at leave
    unfold addKeyLine at leave
    simp only at leave
    split at leave
    · next notOk =>
        cases leave
        exact ⟨rfl, rfl, rfl, fun _ => rfl, notOk⟩
    · split at leave
      · cases leave
      · split at leave
        · cases leave
          exact ⟨rfl, rfl, rfl, nofun, nofun⟩
        · generalize
            (if load.firstLen = 0 then _ else load.firstLen) = firstLen
            at leave
          split at leave
          · cases leave
            exact ⟨rfl, rfl, rfl, nofun, nofun⟩
          · cases leave
  · rw [loadKeysPass_failed heap allocates] at leave
    cases leave
    exact ⟨rfl, rfl, rfl, nofun, nofun⟩

/-- The pass over a last line leaves the loop. -/
theorem loadKeysPass_last
    (noNewline : '\n' ∉ load.file) :
    ∃ failure final,
      loadKeysPass ssl heap load = .leave failure final ∧
        (failure = .eof ↔
          Allocates ssl load.aes.mallocCalls ∧
            ∃ length, DigitLine length load.file) := by
  by_cases allocates : Allocates ssl load.aes.mallocCalls
  · obtain ⟨notOk, eof⟩ :=
      loadKeyLine_last noNewline (heap load.aes.mallocCalls)
        (heap (load.aes.mallocCalls + 1)) load.keyLen load.nonceLen
    rw [loadKeysPass_allocates heap allocates]
    unfold addKeyLine
    rw [if_pos notOk]
    exact ⟨_, _, rfl, eof.trans (by simp only [allocates, true_and])⟩
  · rw [loadKeysPass_failed heap allocates]
    exact
      ⟨_, _, rfl, iff_of_false nofun fun both => allocates both.1⟩

/-- The first of some accepted lines are accepted. -/
theorem AcceptedLines.front
    {front : List (List Char)}
    (accepted : AcceptedLines ssl load lines)
    (isPrefix : front <+: lines) :
    AcceptedLines ssl load front := by
  have subset := isPrefix.subset
  refine ⟨?_, ?_, ?_⟩
  · exact fun line member => accepted.taken line (subset member)
  · exact fun first inFirst second inSecond =>
      accepted.same first (subset inFirst) second (subset inSecond)
  · exact fun index below =>
      accepted.allocates index
        (Nat.lt_of_lt_of_le below isPrefix.length_le)

/-- A file has no more lines than characters. -/
theorem fileLines_length_le (file : List Char) :
    (fileLines file).length ≤ file.length := by
  unfold fileLines
  induction file using lines_induction '\n' with
  | last text noNewline =>
      rw [terminated_open noNewline]
      exact Nat.zero_le _
  | line line rest noNewline inductionHypothesis =>
      rw [terminated_line noNewline, List.length_cons,
        List.length_append, List.length_cons]
      omega

end Reading

/-- The variables of `load_keys` before its loop. -/
def loadStart (contents : List Char) (state : AesState) : KeyLoad where
  file := contents
  keyLen := 0
  nonceLen := 0
  firstLen := 0
  keys := []
  nonces := []
  unknown := none
  aes := state

/-- A whole run of the loop of `load_keys`: the lines it reads, and its end. -/
structure KeyFileRun
    (ssl : OpenSsl)
    (heap : Nat → List Byte)
    (file : List Char)
    (state : AesState)
    (count : Nat)
    (next : KeyLoad)
    (failure : FileError)
    (final : KeyLoad) : Prop where
  reads : (loadStart file state).Reads ssl heap count next
  pass : loadKeysPass ssl heap next = .leave failure final
  leaves : Leaves next failure final
  run :
    (loadKeysLoop ssl heap).run (file.length + 1)
        (loadStart file state) =
      .left failure final
  eof :
    failure = .eof ↔
      AcceptedLines ssl (loadStart file state) (fileLines file) ∧
        Allocates ssl
          (state.mallocCalls + 2 * (fileLines file).length) ∧
        ∃ length, DigitLine length (lastLine file)
  whole : failure = .eof → count = (fileLines file).length
  atLast : failure = .eof → next.file = lastLine file
  furthest :
    ∀ other,
      AcceptedLines ssl (loadStart file state)
        ((fileLines file).take other) →
      (fileLines file).take other <+: (fileLines file).take count

/-- A pass that leaves the loop, once some lines have been read. -/
theorem KeyLoad.Reads.run_left
    {ssl : OpenSsl}
    {heap : Nat → List Byte}
    {file : List Char}
    {state : AesState}
    {count : Nat}
    {next final : KeyLoad}
    {failure : FileError}
    (reads : (loadStart file state).Reads ssl heap count next)
    (leave : loadKeysPass ssl heap next = .leave failure final) :
    (loadKeysLoop ssl heap).run (file.length + 1)
        (loadStart file state) =
      .left failure final := by
  have within : count ≤ (fileLines file).length := reads.within
  have enough := fileLines_length_le file
  have more := Loop.run_add reads.runs (file.length - count + 1)
  rw [Loop.run_leave rfl leave,
    show count + (file.length - count + 1) = file.length + 1 by omega]
    at more
  exact more

/-- Every file is gone through to its last line, or to one that is rejected. -/
theorem loadKeys_run
    (ssl : OpenSsl)
    (heap : Nat → List Byte)
    (file : List Char)
    (state : AesState) :
    ∃ count next failure final,
      KeyFileRun ssl heap file state count next failure final := by
  obtain ⟨count, next, reads, ends⟩ :=
    @loadKeysLoop_reads ssl heap (loadStart file state)
  have within : count ≤ (fileLines file).length := reads.within
  have adds : Adds ((fileLines file).take count) (loadStart file state) next :=
    reads.adds
  have calls :
      next.aes.mallocCalls = state.mallocCalls + 2 * count := by
    rw [adds.aes, List.length_take_of_le within]
    rfl
  cases ends with
  | lastLine all atLast =>
      have noNewline : '\n' ∉ next.file := by
        rw [atLast]
        exact notMem_unterminated '\n' _
      have accepted :
          AcceptedLines ssl (loadStart file state) (fileLines file) := by
        have front := reads.accepted
        rwa [all, List.take_length] at front
      have allLines : count = (fileLines file).length := all
      obtain ⟨failure, final, leave, eof⟩ :=
        loadKeysPass_last heap noNewline
      refine
        ⟨count, next, failure, final, reads, leave,
          loadKeysPass_leaves heap leave, reads.run_left leave, ?_,
          fun _ => allLines, fun _ => atLast, ?_⟩
      · rw [eof, calls, allLines, atLast]
        simp only [accepted, true_and]
        rfl
      · intro other _
        rw [allLines, List.take_length]
        exact List.take_prefix other _
  | rejected some unaccepted leave notOk notEof =>
      refine
        ⟨count, next, _, _, reads, leave,
          loadKeysPass_leaves heap leave, reads.run_left leave, ?_,
          fun eof => absurd eof notEof, fun eof => absurd eof notEof,
          ?_⟩
      · refine iff_of_false notEof ?_
        rintro ⟨accepted, _⟩
        exact unaccepted (accepted.front (List.take_prefix _ _))
      · intro other accepted
        have atMost : other ≤ count := by
          by_contra beyond
          refine unaccepted (accepted.front ?_)
          exact List.take_prefix_take_left (by omega)
        exact List.take_prefix_take_left atMost

/-- What `load_keys` does when its loop has been left. -/
theorem loadKeys_of_left
    {ssl : OpenSsl}
    {heap : Nat → List Byte}
    {file : List Char}
    {state : AesState}
    {passes : Nat}
    {failure : FileError}
    {final : KeyLoad}
    (left :
      (loadKeysLoop ssl heap).run passes (loadStart file state) =
        .left failure final)
    (enough : passes ≤ file.length + 1) :
    loadKeys ssl heap file state =
      some
        (if failure = .eof then
          setLoadedKeys ssl final
        else
          { result := failure
            unknown := final.unknown
            state := final.aes }) := by
  have ran :
      (loadKeysLoop ssl heap).run (file.length + 1)
          (loadStart file state) =
        .left failure final := by
    have longer :=
      Loop.run_ended (by rw [left]; rfl) (file.length + 1 - passes)
    rwa [Nat.add_sub_cancel' enough, left] at longer
  unfold loadStart at ran
  unfold loadKeys
  rw [ran]
  cases failure <;> rfl

/-- What `load_keys` does after such a run. -/
theorem KeyFileRun.loadKeys_eq
    {ssl : OpenSsl}
    {heap : Nat → List Byte}
    {file : List Char}
    {state : AesState}
    {count : Nat}
    {next final : KeyLoad}
    {failure : FileError}
    (run : KeyFileRun ssl heap file state count next failure final) :
    loadKeys ssl heap file state =
      some
        (if failure = .eof then
          setLoadedKeys ssl final
        else
          { result := failure
            unknown := final.unknown
            state := final.aes }) :=
  loadKeys_of_left run.run (Nat.le_refl _)

/-- At the end of the file all of its lines have been added. -/
theorem KeyFileRun.adds_eof
    {ssl : OpenSsl}
    {heap : Nat → List Byte}
    {file : List Char}
    {state : AesState}
    {count : Nat}
    {next final : KeyLoad}
    {failure : FileError}
    (run : KeyFileRun ssl heap file state count next failure final)
    (eof : failure = .eof) :
    Adds (fileLines file) (loadStart file state) next ∧
      final.amount = keyCount (fileLines file) ∧
      final.firstLen = next.firstLen := by
  have adds : Adds ((fileLines file).take count) (loadStart file state) next :=
    run.reads.adds
  rw [run.whole eof, List.take_length] at adds
  refine ⟨adds, ?_, run.leaves.firstLen eof⟩
  have amount := adds.amount.trans (Nat.zero_add _)
  rw [← amount]
  exact congrArg List.length run.leaves.keys

end RdRand
