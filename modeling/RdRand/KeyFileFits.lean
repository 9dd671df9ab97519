import RdRand.KeyFileAcceptance
import RdRand.KeyFileSafety

namespace RdRand

/-!
# Key files that fit

What a key file must say for `load_keys` to stay within its memory: no line
that is read begins with more digits than `buf` holds, no more lines are keys
than the arrays have room for, and the keys that are set are as long as the
cipher reads.
-/

open ControlLoop MemoryBlocks TextLines

/-- A key file that `load_keys` stays within its memory for. -/
structure KeyFileFits (file : List Char) : Prop where
  buffer :
    ∀ front line,
      front ++ [line] <+: fileLines file ++ [lastLine file] →
      KeyText front →
      (line.takeWhile isHexDigit).length ≤ 2 * rdrandMaxKeyLength
  arrays :
    ∀ front,
      front <+: fileLines file →
      KeyText front →
      keyCount front ≤ maxKeys
  cipher : ¬ KeyFileText 8 file

/-- The lines that are left fit into the arrays. -/
structure KeyLoad.LinesFit (ssl : OpenSsl) (load : KeyLoad) : Prop where
  buffer :
    ∀ front line,
      front ++ [line] <+: fileLines load.file ++ [lastLine load.file] →
      AcceptedLines ssl load front →
      (line.takeWhile isHexDigit).length ≤ 2 * rdrandMaxKeyLength
  arrays :
    ∀ front,
      front <+: fileLines load.file →
      AcceptedLines ssl load front →
      load.amount + keyCount front ≤ maxKeys

section Passes

variable
  {ssl : OpenSsl}
  (heap : Nat → List Byte)
  {load next : KeyLoad}
  {line rest : List Char}

/-- The digits that a line begins with, whatever follows its newline. -/
theorem takeWhile_line (line rest : List Char) :
    (line ++ '\n' :: rest).takeWhile isHexDigit =
      line.takeWhile isHexDigit := by
  induction line with
  | nil =>
      rfl
  | cons c line inductionHypothesis =>
      simp only [List.cons_append, List.takeWhile_cons,
        inductionHypothesis]

/-- All stores are inside `buf` where the digits of the line fit. -/
theorem scanStores_line_iff (line rest : List Char) :
    (∀ index ∈ scanStores 0 (line ++ '\n' :: rest),
        index < 2 * rdrandMaxKeyLength) ↔
      (line.takeWhile isHexDigit).length ≤ 2 * rdrandMaxKeyLength := by
  rw [scanStores_inBounds_iff, takeWhile_line]

/-- A pass that leaves the loop fits where its digits do. -/
theorem passesFit_of_leave
    {failure : FileError}
    {final : KeyLoad}
    (leave : loadKeysPass ssl heap load = .leave failure final)
    (passes : Nat) :
    load.PassesFit ssl heap (passes + 1) ↔
      ∀ index ∈ scanStores 0 load.file,
        index < 2 * rdrandMaxKeyLength := by
  constructor
  · exact fun fit => fit.1.buffer
  · intro inBounds
    refine ⟨⟨inBounds, ?_⟩, ?_⟩
    · intro next again
      rw [leave] at again
      cases again
    · intro next again
      rw [leave] at again
      cases again

/-- A pass that adds a line fits where there is room for it. -/
theorem passesFit_of_again
    (again : loadKeysPass ssl heap load = .again next)
    (room : load.amount ≤ maxKeys)
    (passes : Nat) :
    load.PassesFit ssl heap (passes + 1) ↔
      (∀ index ∈ scanStores 0 load.file,
          index < 2 * rdrandMaxKeyLength) ∧
        next.amount ≤ maxKeys ∧
        next.PassesFit ssl heap passes := by
  have amount := (loadKeysPass_fields again).2
  constructor
  · rintro ⟨fits, later⟩
    refine ⟨fits.buffer, ?_, later next again⟩
    rw [amount]
    split
    · exact room
    · next added =>
        exact fits.arrays next again added
  · rintro ⟨inBounds, within, later⟩
    refine ⟨⟨inBounds, ?_⟩, ?_⟩
    · intro other same added
      rw [again] at same
      cases same
      rw [amount, if_neg added] at within
      exact within
    · intro other same
      rw [again] at same
      cases same
      exact later

/-- What is left fits where the first line does, and what is left after it. -/
theorem linesFit_cons
    (first : load.AddsLine ssl heap line next)
    (room : load.amount ≤ maxKeys) :
    load.LinesFit ssl ↔
      (line.takeWhile isHexDigit).length ≤ 2 * rdrandMaxKeyLength ∧
        next.LinesFit ssl := by
  have accepted :
      ∀ {lines},
        AcceptedLines ssl load (line :: lines) ↔
          AcceptedLines ssl next lines := by
    intro lines
    rw [acceptedLines_cons_iff first.adds first.takes]
    exact and_iff_right first.allocates
  have amount : ∀ lines,
      load.amount + keyCount (line :: lines) =
        next.amount + keyCount lines := by
    intro lines
    rw [first.adds.amount, keyCount_cons, keyCount_cons, keyCount_nil,
      Nat.add_zero, Nat.add_assoc]
  constructor
  · rintro ⟨buffer, arrays⟩
    rw [first.lines, first.lastLine] at buffer
    rw [first.lines] at arrays
    refine ⟨?_, ?_, ?_⟩
    · refine buffer [] line ?_ (.nil load)
      exact List.prefix_append [line] _
    · intro front other isPrefix taken
      exact
        buffer (line :: front) other
          (List.prefix_cons_inj line |>.mpr isPrefix)
          (accepted.mpr taken)
    · intro front isPrefix taken
      rw [← amount]
      exact
        arrays (line :: front)
          (List.prefix_cons_inj line |>.mpr isPrefix)
          (accepted.mpr taken)
  · rintro ⟨digits, buffer, arrays⟩
    refine ⟨?_, ?_⟩
    · intro front other isPrefix taken
      rw [first.lines, first.lastLine, List.cons_append] at isPrefix
      cases front with
      | nil =>
          obtain ⟨rfl, _⟩ := List.cons_prefix_cons.mp isPrefix
          exact digits
      | cons one front =>
          obtain ⟨rfl, rest⟩ := List.cons_prefix_cons.mp isPrefix
          exact buffer front other rest (accepted.mp taken)
    · intro front isPrefix taken
      rw [first.lines] at isPrefix
      cases front with
      | nil =>
          exact room
      | cons one front =>
          obtain ⟨rfl, rest⟩ := List.cons_prefix_cons.mp isPrefix
          rw [amount]
          exact arrays front rest (accepted.mp taken)

/-- Lines before another one of a text are lines that a newline ends. -/
theorem front_of_cons
    {lines front : List (List Char)}
    {other last : List Char}
    (isPrefix : front ++ [other] <+: lines ++ [last]) :
    front <+: lines := by
  rcases List.prefix_concat_iff.mp isPrefix with whole | within
  · exact (List.append_inj' whole rfl).1 ▸ List.prefix_rfl
  · exact (List.prefix_append front [other]).trans within

/-- What is left fits where its first line does, if no more is read. -/
theorem linesFit_of_rejected
    {later : List (List Char)}
    (first :
      fileLines load.file ++ [lastLine load.file] = line :: later)
    (rejected :
      ∀ front,
        front <+: fileLines load.file →
        AcceptedLines ssl load front →
        front = [])
    (room : load.amount ≤ maxKeys) :
    load.LinesFit ssl ↔
      (line.takeWhile isHexDigit).length ≤ 2 * rdrandMaxKeyLength := by
  constructor
  · rintro ⟨buffer, _⟩
    refine buffer [] line ?_ (.nil load)
    rw [first]
    exact List.prefix_append [line] later
  · intro digits
    refine ⟨?_, ?_⟩
    · intro front other isPrefix taken
      rw [rejected front (front_of_cons isPrefix) taken, first]
        at isPrefix
      obtain ⟨rfl, _⟩ := List.cons_prefix_cons.mp isPrefix
      exact digits
    · intro front isPrefix taken
      rw [rejected front isPrefix taken]
      exact room

/-- Whether the passes fit is a matter of the lines that are left. -/
theorem passesFit_iff
    (malloc : ∀ call, ssl.mallocOk call = true)
    {passes : Nat}
    (enough : load.file.length < passes)
    (room : load.amount ≤ maxKeys) :
    load.PassesFit ssl heap passes ↔ load.LinesFit ssl := by
  generalize shape : load.file = file at enough
  induction file using lines_induction '\n'
    generalizing load passes with
  | last text noNewline =>
      obtain ⟨passes, rfl⟩ :=
        Nat.exists_eq_succ_of_ne_zero (Nat.ne_zero_of_lt enough)
      rw [← shape] at noNewline
      obtain ⟨failure, final, leave, _⟩ :=
        @loadKeysPass_last ssl heap load noNewline
      have lines : fileLines load.file = [] :=
        terminated_open noNewline
      have last : lastLine load.file = load.file :=
        unterminated_open noNewline
      have first :
          fileLines load.file ++ [lastLine load.file] = [load.file] := by
        simp [lines, last]
      rw [passesFit_of_leave heap leave, scanStores_inBounds_iff]
      refine (linesFit_of_rejected first ?_ room).symm
      intro front isPrefix _
      rw [lines] at isPrefix
      exact List.prefix_nil.mp isPrefix
  | line line rest noNewline inductionHypothesis =>
      obtain ⟨passes, rfl⟩ :=
        Nat.exists_eq_succ_of_ne_zero (Nat.ne_zero_of_lt enough)
      have allocates : Allocates ssl load.aes.mallocCalls :=
        ⟨malloc _, malloc _⟩
      by_cases takes : load.Takes line
      · obtain ⟨next, first, atRest⟩ :=
          KeyLoad.AddsLine.of_takes heap noNewline shape allocates takes
        have shorter : rest.length < passes := by
          rw [List.length_append, List.length_cons] at enough
          omega
        rw [passesFit_of_again heap first.pass room, shape,
          scanStores_line_iff, linesFit_cons heap first room]
        refine and_congr_right fun _ => ?_
        constructor
        · rintro ⟨within, fit⟩
          exact
            (inductionHypothesis within atRest shorter).mp fit
        · intro fit
          have within : next.amount ≤ maxKeys :=
            fit.arrays [] (List.nil_prefix) (.nil next)
          exact
            ⟨within,
              (inductionHypothesis within atRest shorter).mpr fit⟩
      · have lines : fileLines load.file = line :: fileLines rest := by
          rw [shape]
          exact terminated_line noNewline rest
        obtain ⟨failure, final, leave, _⟩ :=
          loadKeysPass_rejects heap noNewline shape
            fun both => takes both.2
        have first :
            fileLines load.file ++ [lastLine load.file] =
              line :: (fileLines rest ++ [lastLine load.file]) := by
          simp [lines]
        rw [passesFit_of_leave heap leave, shape, scanStores_line_iff]
        refine (linesFit_of_rejected first ?_ room).symm
        intro front isPrefix taken
        rw [lines] at isPrefix
        cases front with
        | nil =>
            rfl
        | cons one front =>
            obtain ⟨rfl, _⟩ := List.cons_prefix_cons.mp isPrefix
            exact absurd (taken.taken one List.mem_cons_self) takes

/-- A pass over a line skips it exactly if it is empty. -/
theorem KeyLoad.AddsLine.keyLen_eq_zero_iff
    (first : load.AddsLine ssl heap line next) :
    next.keyLen = 0 ↔ line = [] := by
  have counted := (loadKeysPass_fields first.pass).2
  rw [first.adds.amount, keyCount_cons, keyCount_nil, Nat.add_zero,
    Nat.add_left_cancel_iff] at counted
  by_cases empty : line = []
  · refine iff_of_true ?_ empty
    by_contra added
    rw [if_pos empty, if_neg added] at counted
    cases counted
  · refine iff_of_false (fun skip => ?_) empty
    rw [if_neg empty, if_pos skip] at counted
    cases counted

/-- The lines that are skipped on the way to the end are the empty ones. -/
theorem mem_skippedLines
    {passes : Nat}
    {last : KeyLoad}
    (left : (loadKeysLoop ssl heap).run passes load = .left .eof last)
    {call : Nat} :
    call ∈ skippedLines ssl heap passes load ↔
      ∃ index,
        (fileLines load.file)[index]? = some [] ∧
          call = load.aes.mallocCalls + 2 * index := by
  generalize shape : load.file = file
  induction file using lines_induction '\n'
    generalizing load passes with
  | last text noNewline =>
      rw [← shape] at noNewline
      have lines : fileLines text = [] := by
        rw [← shape]
        exact terminated_open noNewline
      obtain ⟨failure, final, leave, _⟩ :=
        @loadKeysPass_last ssl heap load noNewline
      have none : skippedLines ssl heap passes load = [] := by
        cases passes with
        | zero =>
            rfl
        | succ passes =>
            unfold skippedLines
            rw [leave]
      simp [none, lines]
  | line line rest noNewline inductionHypothesis =>
      have lines :
          fileLines (line ++ '\n' :: rest) = line :: fileLines rest :=
        terminated_line noNewline rest
      cases passes with
      | zero =>
          cases left
      | succ passes =>
          by_cases taken :
              Allocates ssl load.aes.mallocCalls ∧ load.Takes line
          · obtain ⟨next, first, atRest⟩ :=
              KeyLoad.AddsLine.of_takes heap noNewline shape taken.1
                taken.2
            have mallocCalls :
                next.aes.mallocCalls = load.aes.mallocCalls + 2 := by
              rw [(loadKeysPass_fields first.pass).1]
              rfl
            rw [Loop.run_again rfl first.pass] at left
            unfold skippedLines
            simp only [first.pass, List.mem_append, lines,
              inductionHypothesis left atRest, mallocCalls]
            have skips := first.keyLen_eq_zero_iff
            constructor
            · rintro (here | ⟨index, empty, rfl⟩)
              · split at here
                · next skip =>
                    refine ⟨0, ?_, List.mem_singleton.mp here⟩
                    rw [skips.mp skip]
                    rfl
                · cases here
              · exact ⟨index + 1, empty, by omega⟩
            · rintro ⟨_ | index, empty, rfl⟩
              · have isEmpty : line = [] := by
                  simpa using empty
                rw [if_pos (skips.mpr isEmpty)]
                exact .inl (List.mem_singleton.mpr rfl)
              · exact .inr ⟨index, empty, by omega⟩
          · obtain ⟨failure, final, leave, _, notEof⟩ :=
              loadKeysPass_rejects heap noNewline shape taken
            rw [Loop.run_leave rfl leave] at left
            cases left
            exact absurd rfl notEof

end Passes

/-- A key file fits where the passes over it do, and its keys are long. -/
theorem keyFileFits_iff
    {ssl : OpenSsl}
    (malloc : ∀ call, ssl.mallocOk call = true)
    (heap : Nat → List Byte)
    (contents : List Char)
    (state : AesState) :
    KeyFileFits contents ↔
      (loadStart contents state).PassesFit ssl heap
          (contents.length + 1) ∧
        ¬ KeyFileText 8 contents := by
  have accepted :
      ∀ {lines},
        AcceptedLines ssl (loadStart contents state) lines ↔
          KeyText lines :=
    acceptedLines_iff malloc
  have passes :
      (loadStart contents state).PassesFit ssl heap
          (contents.length + 1) ↔
        (loadStart contents state).LinesFit ssl :=
    passesFit_iff heap malloc (Nat.lt_succ_self _) (Nat.zero_le _)
  rw [passes]
  constructor
  · rintro ⟨buffer, arrays, cipher⟩
    refine ⟨⟨?_, ?_⟩, cipher⟩
    · intro front line isPrefix taken
      exact buffer front line isPrefix (accepted.mp taken)
    · intro front isPrefix taken
      refine Nat.le_trans (Nat.le_of_eq (Nat.zero_add _)) ?_
      exact arrays front isPrefix (accepted.mp taken)
  · rintro ⟨⟨buffer, arrays⟩, cipher⟩
    refine ⟨?_, ?_, cipher⟩
    · intro front line isPrefix text
      exact buffer front line isPrefix (accepted.mpr text)
    · intro front isPrefix text
      refine Nat.le_trans (Nat.le_of_eq (Nat.zero_add _).symm) ?_
      exact arrays front isPrefix (accepted.mpr text)

/-- A string that `load_keys` allocates for an empty line, when it starts. -/
def OfEmptyLine (contents : List Char) (call : Nat) : Prop :=
  (fileLines contents)[call / 2]? = some []

/-- What loading leaves is a matter of the text of the file. -/
theorem loadKeysMemory_rights_text
    {ssl : OpenSsl}
    (malloc : ∀ call, ssl.mallocOk call = true)
    {heap : Nat → List Byte}
    {locks : MemoryLocks}
    {contents : List Char}
    (fit :
      (loadStart contents aesStart).PassesFit ssl heap
        (contents.length + 1)) :
    ∃ final,
      run (rights (loadKeysMemory ssl heap locks contents aesStart))
          Heap.empty = some final ∧
        ∀ loaded,
          loadKeys ssl heap contents aesStart = some loaded →
          loaded.result = .ok →
          LinesFreed (OfEmptyLine contents) final := by
  obtain ⟨final, through, freed⟩ :=
    @loadKeysMemory_rights_run ssl heap locks contents aesStart malloc fit
  refine ⟨final, through, fun loaded read ok => ?_⟩
  obtain ⟨count, next, failure, last, run⟩ :=
    loadKeys_run ssl heap contents aesStart
  have eof : failure = .eof := by
    by_contra notEof
    rw [run.loadKeys_eq, if_neg notEof] at read
    cases read
    exact run.leaves.notOk ok
  subst eof
  have strings :
      ∀ call,
        OfLine
            (skippedLines ssl heap (contents.length + 1)
              (loadStart contents aesStart))
            call ↔
          OfEmptyLine contents call := by
    intro call
    have member :
        ∀ line,
          line ∈
              skippedLines ssl heap (contents.length + 1)
                (loadStart contents aesStart) ↔
            ∃ index,
              (fileLines contents)[index]? = some [] ∧
                line = 0 + 2 * index :=
      fun line => mem_skippedLines heap run.run
    unfold OfLine OfEmptyLine
    simp only [member]
    constructor
    · rintro ⟨line, ⟨index, empty, rfl⟩, same⟩
      rw [show call / 2 = index by omega]
      exact empty
    · intro empty
      exact ⟨_, ⟨call / 2, empty, rfl⟩, by omega⟩
  have kept := freed loaded read ok
  exact
    { live := fun call => (kept.live call).trans (strings call)
      blank := fun call isEmpty =>
        kept.blank call ((strings call).mpr isEmpty) }

end RdRand
