import RdRand.KeyFileRoundTrip

namespace RdRand

/-!
# The buffer and the bytes of a key line

`load_key_line` collects the digits of a line in an array, and converts two
thirds of them to a key and one third to a nonce.  The comparison that should
protect the array lets one digit too many pass, and a third of an odd length
is not converted at all.
-/

open Hexadecimal

/-- The indices at which `load_key_line` stores into `buf`. -/
def scanStores : Nat → List Char → List Nat
  | _, [] => []
  | i, c :: rest =>
      if c = '\n' then
        []
      else if isHexDigit c then
        if rdrandMaxKeyLength * 2 < i then
          []
        else
          i :: scanStores (i + 1) rest
      else
        []

/-- The line a file begins with. -/
def firstLine (file : List Char) : List Char :=
  file.takeWhile (· ≠ '\n')

/--
What the comparison is for: all stores are inside `buf`, and a line of more
digits than fit has a bad length.
-/
structure BufferLaw (file : List Char) (digits : Nat) : Prop where
  inBounds :
    ∀ index ∈ scanStores 0 file, index < 2 * rdrandMaxKeyLength
  tooMany :
    2 * rdrandMaxKeyLength < digits →
    ∀ key nonce keyLen nonceLen,
      (loadKeyLine file key nonce keyLen nonceLen).result =
        .keyNonceBadLength

section Buffer

variable {file : List Char}

/-- The stores follow each other, one for each digit that is collected. -/
theorem scanStores_eq (i : Nat) (file : List Char) :
    scanStores i file = List.range' i (scanLine i file).buf.length := by
  induction file generalizing i with
  | nil =>
      rfl
  | cons c rest inductionHypothesis =>
      unfold scanStores scanLine
      split
      · rfl
      · split
        · split
          · rfl
          · simp only [inductionHypothesis, List.length_cons,
              List.range'_succ]
        · rfl

/-- All stores are inside `buf` where at most 64 digits begin the line. -/
theorem scanStores_inBounds_iff :
    (∀ index ∈ scanStores 0 file, index < 2 * rdrandMaxKeyLength) ↔
      (file.takeWhile isHexDigit).length ≤ 2 * rdrandMaxKeyLength := by
  have stores :
      (∀ index ∈ scanStores 0 file, index < 2 * rdrandMaxKeyLength) ↔
        (scanLine 0 file).buf.length ≤ 2 * rdrandMaxKeyLength := by
    rw [scanStores_eq, ← List.range_eq_range']
    simp only [List.mem_range]
    constructor
    · intro inBounds
      by_contra overlong
      exact
        Nat.lt_irrefl _
          (inBounds _ (Nat.lt_of_not_le overlong))
    · exact fun fits index below => Nat.lt_of_lt_of_le below fits
  rw [stores]
  by_cases overlong :
      rdrandMaxKeyLength * 2 + 1 < (file.takeWhile isHexDigit).length
  · rw [(scanLine_over overlong).1, List.length_take_of_le (by omega)]
    omega
  · rw [(scanLine_fits (Nat.le_of_not_lt overlong)).1]

/-- The first line begins with the digits the file begins with. -/
theorem firstLine_eq (file : List Char) :
    firstLine file =
      file.takeWhile isHexDigit ++ firstLine (file.dropWhile isHexDigit) := by
  have parts : file.takeWhile isHexDigit ++ file.dropWhile isHexDigit = file :=
    List.takeWhile_append_dropWhile
  have noNewline :
      ∀ c ∈ file.takeWhile isHexDigit, decide (c ≠ '\n') = true := by
    intro c member
    have digit := takeWhile_digits file c member
    rw [decide_eq_true_eq]
    rintro rfl
    exact absurd digit (by decide)
  unfold firstLine
  rw [← List.takeWhile_append_of_pos noNewline, parts]

/-- These digits are some of the digits of the line. -/
theorem countP_firstLine (file : List Char) :
    (firstLine file).countP isHexDigit =
      (file.takeWhile isHexDigit).length +
        (firstLine (file.dropWhile isHexDigit)).countP isHexDigit := by
  rw [firstLine_eq, List.countP_append,
    List.countP_eq_length.mpr (takeWhile_digits file)]

/--
A line whose first digits fit is answered with a bad length only if it has no
other digits.
-/
theorem countP_firstLine_of_badLength
    {key nonce : List Byte}
    {keyLen nonceLen : Nat}
    (fits :
      (file.takeWhile isHexDigit).length ≤ rdrandMaxKeyLength * 2 + 1)
    (badLength :
      (loadKeyLine file key nonce keyLen nonceLen).result =
        .keyNonceBadLength) :
    (firstLine file).countP isHexDigit =
      (file.takeWhile isHexDigit).length := by
  have parts :
      file.takeWhile isHexDigit ++ file.dropWhile isHexDigit = file :=
    List.takeWhile_append_dropWhile
  suffices none :
      (firstLine (file.dropWhile isHexDigit)).countP isHexDigit = 0 by
    rw [countP_firstLine, none, Nat.add_zero]
  obtain ⟨_, ⟨whole, _⟩ | ⟨c, rest, shape, noDigit, stop, _⟩⟩ :=
    scanLine_fits fits
  · rw [whole] at parts
    rw [List.append_right_eq_self.mp parts]
    rfl
  · rw [List.append_cancel_left (parts.trans shape)]
    by_cases newline : c = '\n'
    · simp [firstLine, newline]
    · rw [if_neg newline] at stop
      rw [loadKeyLine_breaksOff (.inr ⟨_, stop⟩), stop] at badLength
      cases badLength

/--
The law of the buffer holds of a line exactly where its digits fit, whether
those that are read are counted or all that the line has.
-/
theorem loadKeyLine_bufferLaw_iff (file : List Char) :
    (BufferLaw file (file.takeWhile isHexDigit).length ↔
        (file.takeWhile isHexDigit).length ≤ 2 * rdrandMaxKeyLength) ∧
      (BufferLaw file ((firstLine file).countP isHexDigit) ↔
        (firstLine file).countP isHexDigit ≤
          2 * rdrandMaxKeyLength) := by
  have count := countP_firstLine file
  constructor
  · constructor
    · exact fun law => scanStores_inBounds_iff.mp law.inBounds
    · intro few
      exact
        ⟨scanStores_inBounds_iff.mpr few,
          fun more => absurd few (Nat.not_le.mpr more)⟩
  · constructor
    · intro law
      by_contra more
      have run := scanStores_inBounds_iff.mp law.inBounds
      have badLength := law.tooMany (Nat.lt_of_not_le more) [] [] 0 0
      rw [countP_firstLine_of_badLength (by omega) badLength] at more
      exact more run
    · intro few
      exact
        ⟨scanStores_inBounds_iff.mpr (by omega),
          fun more => absurd few (Nat.not_le.mpr more)⟩

end Buffer

/-- A line of 65 digits is stored up to index 64, one behind the buffer. -/
theorem loadKeyLine_stores_outside :
    2 * rdrandMaxKeyLength = 64 ∧
      64 ∈ scanStores 0 (List.replicate 65 'a' ++ ['\n']) ∧
      ¬ BufferLaw (List.replicate 65 'a' ++ ['\n']) 65 := by
  have stored : 64 ∈ scanStores 0 (List.replicate 65 'a' ++ ['\n']) := by
    decide
  refine ⟨rfl, stored, fun law => ?_⟩
  exact absurd (law.inBounds 64 stored) (by decide)

/--
The reported bytes of the key and of the nonce are those that two thirds and
one third of the line spell, and spell the line up to the case.
-/
structure LineDecoded (line : List Char) (read : KeyLine) : Prop where
  key :
    Spells (line.take (line.length / 3 * 2)) (read.key.take read.keyLen)
  keyLen : (read.key.take read.keyLen).length = read.keyLen
  nonce :
    Spells (line.drop (line.length / 3 * 2))
      (read.nonce.take read.nonceLen)
  nonceLen : (read.nonce.take read.nonceLen).length = read.nonceLen
  encodes :
    spelling
        (read.key.take read.keyLen ++ read.nonce.take read.nonceLen) =
      line.map Char.toLower

section Decoding

variable
  {keyLen : Nat}
  {line : List Char}

/-- The line a newline ends. -/
theorem firstLine_line
    (noNewline : '\n' ∉ line)
    (rest : List Char) :
    firstLine (line ++ '\n' :: rest) = line := by
  have others : ∀ c ∈ line, decide (c ≠ '\n') = true := by
    intro c member
    rw [decide_eq_true_eq]
    rintro rfl
    exact noNewline member
  rw [firstLine, List.takeWhile_append_of_pos others]
  simp

/-- A line that is read without an error, and holds a key. -/
theorem loadKeyLine_ok
    {file : List Char}
    {key nonce : List Byte}
    {keyLenBefore nonceLenBefore : Nat}
    (ok :
      (loadKeyLine file key nonce keyLenBefore nonceLenBefore).result = .ok)
    (positive :
      0 < (loadKeyLine file key nonce keyLenBefore nonceLenBefore).keyLen) :
    ∃ keyLen line rest,
      0 < keyLen ∧
        DigitLine keyLen line ∧
        '\n' ∉ line ∧
        file = line ++ '\n' :: rest := by
  by_cases ended : '\n' ∈ file
  · obtain ⟨line, rest, rfl, noNewline⟩ := List.eq_append_cons_of_mem ended
    by_cases digits : ∃ keyLen, DigitLine keyLen line
    · obtain ⟨keyLen, digitLine⟩ := digits
      refine ⟨keyLen, line, rest, ?_, digitLine, noNewline, rfl⟩
      by_contra zero
      have spans := digitLine.spans
      have empty : line = [] :=
        List.length_eq_zero_iff.mp (by omega)
      rw [empty, List.nil_append, loadKeyLine_empty] at positive
      exact Nat.lt_irrefl 0 positive
    · have noDigits : ∀ keyLen, ¬ DigitLine keyLen line :=
        fun keyLen digitLine => digits ⟨keyLen, digitLine⟩
      rcases
        loadKeyLine_error noNewline noDigits rest key nonce keyLenBefore
          nonceLenBefore with broken | broken
      · cases broken.symm.trans ok
      · cases broken.symm.trans ok
  · exact absurd ok (loadKeyLine_last ended key nonce _ _).1

/-- A line with an even number of digits for the nonce is decoded. -/
theorem lineDecoded_even
    (digitLine : DigitLine keyLen line)
    (positive : 0 < keyLen)
    (even : keyLen % 2 = 0)
    (rest : List Char)
    (key nonce : List Byte)
    (keyLenBefore nonceLenBefore : Nat) :
    LineDecoded line
      (loadKeyLine (line ++ '\n' :: rest) key nonce keyLenBefore
        nonceLenBefore) := by
  have spans := digitLine.spans
  have notLong := digitLine.keyLen_le
  have small : 2 * rdrandMaxKeyLength < sizeModulus := by
    decide
  have hex : ∀ c ∈ line, (digitValue c).isSome = true :=
    fun c member =>
      (isHexDigit_iff_digitValue c).mp (digitLine.digits c member)
  have thirds : line.length / 3 * 2 = 2 * keyLen := by
    omega
  obtain ⟨keyBytes, keySpelled, keyLength⟩ :=
    exists_spells
      (fun c member => hex c (List.mem_of_mem_take member))
      (List.length_take_of_le (show 2 * keyLen ≤ line.length by omega))
  have nonceDigits :
      (line.drop (2 * keyLen)).length = 2 * (keyLen / 2) := by
    rw [List.length_drop]
    omega
  obtain ⟨nonceBytes, nonceSpelled, nonceLength⟩ :=
    exists_spells
      (fun c member => hex c (List.mem_of_mem_drop member)) nonceDigits
  have keyRead :=
    hexToByte_spells keySpelled (by omega) (line.drop (2 * keyLen))
  have nonceRead := hexToByte_spells nonceSpelled (by omega) []
  rw [List.take_append_drop, keyLength] at keyRead
  rw [List.append_nil, nonceLength,
    show 2 * (keyLen / 2) = keyLen by omega] at nonceRead
  rw [loadKeyLine_digits digitLine positive, keyRead, nonceRead]
  exact
    { key := by
        rw [take_overwrite keyLength, thirds]
        exact keySpelled
      keyLen := by
        rw [take_overwrite keyLength]
        exact keyLength
      nonce := by
        rw [take_overwrite nonceLength, thirds]
        exact nonceSpelled
      nonceLen := by
        rw [take_overwrite nonceLength]
        exact nonceLength
      encodes := by
        rw [take_overwrite keyLength, take_overwrite nonceLength,
          (keySpelled.append nonceSpelled).spelling,
          List.take_append_drop] }

/--
A line that `load_key_line` reads without an error is decoded in full exactly
where its digits can be split in six equal parts.
-/
theorem loadKeyLine_decoded_iff
    {file : List Char}
    {key nonce : List Byte}
    {keyLenBefore nonceLenBefore : Nat}
    (ok :
      (loadKeyLine file key nonce keyLenBefore nonceLenBefore).result = .ok)
    (positive :
      0 < (loadKeyLine file key nonce keyLenBefore nonceLenBefore).keyLen) :
    LineDecoded (firstLine file)
        (loadKeyLine file key nonce keyLenBefore nonceLenBefore) ↔
      (firstLine file).length % 6 = 0 := by
  obtain ⟨keyLen, line, rest, keyPositive, digitLine, noNewline, rfl⟩ :=
    loadKeyLine_ok ok positive
  have spans := digitLine.spans
  rw [firstLine_line noNewline]
  constructor
  · intro decoded
    have nonceDigits := decoded.nonce.length
    rw [List.length_drop] at nonceDigits
    omega
  · intro sixths
    exact
      lineDecoded_even digitLine keyPositive (by omega) rest key nonce
        keyLenBefore nonceLenBefore

/-- A line of twelve digits, for a key of four bytes and a nonce of two. -/
theorem loadKeyLine_decoded_iff_twelve :
    LineDecoded (firstLine (List.replicate 12 'B' ++ ['\n']))
        (loadKeyLine (List.replicate 12 'B' ++ ['\n'])
          (List.replicate 32 7) (List.replicate 32 7) 0 0) ↔
      (firstLine (List.replicate 12 'B' ++ ['\n'])).length % 6 = 0 := by
  have ok :
      (loadKeyLine (List.replicate 12 'B' ++ ['\n'])
        (List.replicate 32 7) (List.replicate 32 7) 0 0).result = .ok := by
    decide
  have positive :
      0 <
        (loadKeyLine (List.replicate 12 'B' ++ ['\n'])
          (List.replicate 32 7) (List.replicate 32 7) 0 0).keyLen := by
    decide
  exact loadKeyLine_decoded_iff ok positive

/--
A line of fifteen digits is accepted for a key of five bytes and a nonce of
two, but its last five digits are ignored and the nonce is never written.
-/
theorem loadKeyLine_not_decoded :
    (loadKeyLine (List.replicate 15 'a' ++ ['\n'])
          (List.replicate 32 7) (List.replicate 32 7) 0 0).result = .ok ∧
      (loadKeyLine (List.replicate 15 'a' ++ ['\n'])
          (List.replicate 32 7) (List.replicate 32 7) 0 0).keyLen = 5 ∧
      (loadKeyLine (List.replicate 15 'a' ++ ['\n'])
          (List.replicate 32 7) (List.replicate 32 7) 0 0).nonceLen = 2 ∧
      (loadKeyLine (List.replicate 15 'a' ++ ['\n'])
          (List.replicate 32 7) (List.replicate 32 7) 0 0).nonce =
        List.replicate 32 7 ∧
      ¬ LineDecoded (List.replicate 15 'a')
          (loadKeyLine (List.replicate 15 'a' ++ ['\n'])
            (List.replicate 32 7) (List.replicate 32 7) 0 0) := by
  refine ⟨by decide, by decide, by decide, by decide, fun decoded => ?_⟩
  have nonceDigits := decoded.nonce.length
  rw [List.length_drop, List.length_replicate] at nonceDigits
  omega

end Decoding

end RdRand
