import Mathlib.Data.List.TakeWhile
import RdRand.KeyFile

namespace RdRand

/-!
# A line of a key file

`load_key_line` collects the hexadecimal digits a line begins with.  A line
that is read consists of digits only, so many that two thirds of them and one
third make up the line.  Whatever the function does with a line does not
depend on what follows its newline.
-/

open ControlLoop Hexadecimal

/--
A line of digits that is read: two thirds for a key of so many bytes, and one
third for the nonce.
-/
structure DigitLine (keyLen : Nat) (line : List Char) : Prop where
  digits : ∀ c ∈ line, isHexDigit c = true
  spans : line.length = 3 * keyLen
  fits : line.length ≤ rdrandMaxKeyLength * 2 + 1

/-- The digits `load_key_line` accepts are those that have a value. -/
theorem isHexDigit_iff_digitValue (c : Char) :
    isHexDigit c = true ↔ (digitValue c).isSome = true := by
  unfold isHexDigit digitValue
  by_cases decimal : Between '0' '9' c
  · simp [decimal]
  · by_cases lower : Between 'a' 'f' c
    · simp [decimal, lower]
    · by_cases upper : Between 'A' 'F' c
      · simp [decimal, lower, upper]
      · simp [decimal, lower, upper]

section Scan

/-- A scan that stops before the end of the file does not see what follows. -/
theorem scanLine_append
    {file : List Char}
    {i : Nat}
    (stops : (scanLine i file).stop ≠ .endOfFile)
    (more : List Char) :
    scanLine i (file ++ more) =
      { scanLine i file with rest := (scanLine i file).rest ++ more } := by
  induction file generalizing i with
  | nil =>
      exact absurd rfl stops
  | cons c rest inductionHypothesis =>
      rw [List.cons_append]
      unfold scanLine at stops ⊢
      split
      · rfl
      · split
        · split
          · rfl
          · next notNewline digit inBounds =>
              simp only [if_neg notNewline, if_pos digit,
                if_neg inBounds] at stops
              simp only [inductionHypothesis stops]
        · rfl

/-- Digits that fit `buf` are stored in it. -/
theorem scanLine_append_digits
    {digits : List Char}
    (hex : ∀ c ∈ digits, isHexDigit c = true)
    {i : Nat}
    (fits : i + digits.length ≤ rdrandMaxKeyLength * 2 + 1)
    (rest : List Char) :
    scanLine i (digits ++ rest) =
      { scanLine (i + digits.length) rest with
        buf := digits ++ (scanLine (i + digits.length) rest).buf } := by
  induction digits generalizing i with
  | nil =>
      rfl
  | cons c digits inductionHypothesis =>
      have digit := hex c List.mem_cons_self
      have notNewline : c ≠ '\n' := by
        rintro rfl
        exact absurd digit (by decide)
      rw [List.length_cons] at fits
      have inBounds : ¬ rdrandMaxKeyLength * 2 < i := by
        omega
      have later :=
        inductionHypothesis
          (fun digit member => hex digit (List.mem_cons_of_mem c member))
          (show i + 1 + digits.length ≤ rdrandMaxKeyLength * 2 + 1 by
            omega)
      rw [List.cons_append, scanLine, if_neg notNewline, if_pos digit,
        if_neg inBounds, List.length_cons,
        show i + (digits.length + 1) = i + 1 + digits.length by omega]
      simp only [later, List.cons_append]

/-- The first character that is no digit ends the digits of a line. -/
theorem scanLine_stops
    {c : Char}
    (noDigit : isHexDigit c = false)
    (i : Nat)
    (rest : List Char) :
    scanLine i (c :: rest) =
      { buf := []
        stop := if c = '\n' then .newline else .invalidCharacter c
        rest := rest } := by
  rw [scanLine]
  split
  · rfl
  · simp [noDigit]

/-- One digit too many. -/
theorem scanLine_tooLong
    {c : Char}
    (digit : isHexDigit c = true)
    {i : Nat}
    (overlong : rdrandMaxKeyLength * 2 < i)
    (rest : List Char) :
    scanLine i (c :: rest) =
      { buf := [], stop := .tooLong, rest := rest } := by
  have notNewline : c ≠ '\n' := by
    rintro rfl
    exact absurd digit (by decide)
  rw [scanLine, if_neg notNewline, if_pos digit, if_pos overlong]

/-- The digits a text begins with are digits. -/
theorem takeWhile_digits (file : List Char) :
    ∀ c ∈ file.takeWhile isHexDigit, isHexDigit c = true :=
  fun _ member => List.mem_takeWhile_imp member

/-- After the digits a text begins with it ends, or goes on with none. -/
theorem dropWhile_digits (file : List Char) :
    file.dropWhile isHexDigit = [] ∨
      ∃ c rest,
        file.dropWhile isHexDigit = c :: rest ∧ isHexDigit c = false := by
  cases shape : file.dropWhile isHexDigit with
  | nil =>
      exact .inl rfl
  | cons c rest =>
      have stops :=
        List.head_dropWhile_not isHexDigit (l := file) (by simp [shape])
      refine .inr ⟨c, rest, rfl, ?_⟩
      simpa [shape] using stops

/-- More digits than are accepted, where a text begins with them. -/
theorem scanLine_over
    {file : List Char}
    (overlong :
      rdrandMaxKeyLength * 2 + 1 < (file.takeWhile isHexDigit).length) :
    (scanLine 0 file).buf =
        (file.takeWhile isHexDigit).take (rdrandMaxKeyLength * 2 + 1) ∧
      (scanLine 0 file).stop = .tooLong := by
  have hex := takeWhile_digits file
  have whole : file.takeWhile isHexDigit ++ file.dropWhile isHexDigit = file :=
    List.takeWhile_append_dropWhile
  generalize file.takeWhile isHexDigit = digits at *
  have parts :=
    List.take_append_drop (rdrandMaxKeyLength * 2 + 1) digits
  have front :
      (digits.take (rdrandMaxKeyLength * 2 + 1)).length =
        rdrandMaxKeyLength * 2 + 1 :=
    List.length_take_of_le (Nat.le_of_lt overlong)
  cases back : digits.drop (rdrandMaxKeyLength * 2 + 1) with
  | nil =>
      have short := List.drop_eq_nil_iff.mp back
      omega
  | cons c later =>
      have digit : isHexDigit c = true :=
        hex c (List.mem_of_mem_drop (back ▸ List.mem_cons_self))
      have scan :=
        scanLine_append_digits
          (fun c member => hex c (List.mem_of_mem_take member))
          (Nat.le_of_eq ((Nat.zero_add _).trans front))
          (c :: (later ++ file.dropWhile isHexDigit))
      rw [scanLine_tooLong digit (by omega), ← List.cons_append, ← back,
        ← List.append_assoc, parts, whole] at scan
      rw [scan]
      exact ⟨List.append_nil _, rfl⟩

/-- The digits a text begins with, where they are accepted. -/
theorem scanLine_fits
    {file : List Char}
    (fits :
      (file.takeWhile isHexDigit).length ≤ rdrandMaxKeyLength * 2 + 1) :
    (scanLine 0 file).buf = file.takeWhile isHexDigit ∧
      ((file.takeWhile isHexDigit = file ∧
          (scanLine 0 file).stop = .endOfFile) ∨
        ∃ c rest,
          file = file.takeWhile isHexDigit ++ c :: rest ∧
            isHexDigit c = false ∧
            (scanLine 0 file).stop =
              (if c = '\n' then .newline else .invalidCharacter c) ∧
            (scanLine 0 file).rest = rest) := by
  have parts :
      file.takeWhile isHexDigit ++ file.dropWhile isHexDigit = file :=
    List.takeWhile_append_dropWhile
  have scan :=
    scanLine_append_digits (takeWhile_digits file)
      (Nat.le_trans (Nat.le_of_eq (Nat.zero_add _)) fits)
      (file.dropWhile isHexDigit)
  rw [parts] at scan
  rcases dropWhile_digits file with ended | ⟨c, rest, shape, noDigit⟩
  · rw [ended, List.append_nil] at parts
    rw [scan, ended]
    exact ⟨List.append_nil _, .inl ⟨parts, rfl⟩⟩
  · rw [shape] at parts
    rw [scan, shape, scanLine_stops noDigit]
    exact
      ⟨List.append_nil _, .inr ⟨c, rest, parts.symm, noDigit, rfl, rfl⟩⟩

end Scan

section Line

variable
  {keyLen : Nat}
  {line : List Char}

/-- A line that is read is no longer than the longest key that is accepted. -/
theorem DigitLine.keyLen_le
    (digitLine : DigitLine keyLen line) :
    keyLen ≤ rdrandMaxKeyLength := by
  have spans := digitLine.spans
  have fits := digitLine.fits
  unfold rdrandMaxKeyLength at *
  omega

/-- What `load_key_line` makes of a line of digits. -/
theorem loadKeyLine_digits
    (digitLine : DigitLine keyLen line)
    (positive : 0 < keyLen)
    (rest : List Char)
    (key nonce : List Byte)
    (keyLenBefore nonceLenBefore : Nat) :
    loadKeyLine (line ++ '\n' :: rest) key nonce keyLenBefore
        nonceLenBefore =
      { result := .ok
        key :=
          KeyArray.overwrite
            (hexToByte line (2 * keyLen) keyLen).written key
        keyLen := keyLen
        nonce :=
          KeyArray.overwrite
            (hexToByte (line.drop (2 * keyLen)) keyLen
              (keyLen / 2)).written
            nonce
        nonceLen := keyLen / 2
        rest := rest
        unknown := none } := by
  have scan :=
    scanLine_append_digits digitLine.digits
      (Nat.le_trans (Nat.le_of_eq (Nat.zero_add _)) digitLine.fits)
      ('\n' :: rest)
  rw [scanLine_stops (by decide), List.append_nil] at scan
  have third : line.length / 3 = keyLen := by
    rw [digitLine.spans]
    omega
  have whole : ¬ keyLen * 2 + keyLen ≠ line.length := by
    rw [digitLine.spans]
    omega
  have some : ¬ keyLen * 2 = 0 := by
    omega
  unfold loadKeyLine
  simp only [scan, if_true, third, whole, some, if_false,
    Nat.mul_div_cancel _ (show 0 < 2 by decide), reduceCtorEq,
    Nat.mul_comm 2 keyLen]

/-- Digits that another character ends. -/
theorem takeWhile_stop
    {digits : List Char}
    (hex : ∀ c ∈ digits, isHexDigit c = true)
    {c : Char}
    (noDigit : isHexDigit c = false)
    (rest : List Char) :
    (digits ++ c :: rest).takeWhile isHexDigit = digits := by
  rw [List.takeWhile_append_of_pos hex, List.takeWhile_cons, noDigit]
  simp

/-- A scan of digits that another character ends. -/
theorem scanLine_stop
    {digits : List Char}
    (hex : ∀ c ∈ digits, isHexDigit c = true)
    {c : Char}
    (noDigit : isHexDigit c = false)
    (rest : List Char) :
    (scanLine 0 (digits ++ c :: rest)).stop =
      if rdrandMaxKeyLength * 2 + 1 < digits.length then
        .tooLong
      else if c = '\n' then
        .newline
      else
        .invalidCharacter c := by
  split
  · next overlong =>
      rw [← takeWhile_stop hex noDigit rest] at overlong
      exact (scanLine_over overlong).2
  · next fits =>
      rw [scanLine_append_digits hex (by omega), scanLine_stops noDigit]

/-- A line consists of digits, or another character follows the first ones. -/
theorem line_cases (line : List Char) :
    (∀ c ∈ line, isHexDigit c = true) ∨
      ∃ digits c more,
        line = digits ++ c :: more ∧
          (∀ c ∈ digits, isHexDigit c = true) ∧
          isHexDigit c = false := by
  have parts : line.takeWhile isHexDigit ++ line.dropWhile isHexDigit = line :=
    List.takeWhile_append_dropWhile
  rcases dropWhile_digits line with ended | ⟨c, more, shape, noDigit⟩
  · rw [ended, List.append_nil] at parts
    exact .inl (parts ▸ takeWhile_digits line)
  · rw [shape] at parts
    exact
      .inr ⟨_, c, more, parts.symm, takeWhile_digits line, noDigit⟩

/-- Digits that fit are a line that is read where they fall in thirds. -/
theorem exists_digitLine_iff
    (hex : ∀ c ∈ line, isHexDigit c = true)
    (fits : line.length ≤ rdrandMaxKeyLength * 2 + 1) :
    (∃ length, DigitLine length line) ↔
      line.length / 3 * 2 + line.length / 3 = line.length := by
  constructor
  · rintro ⟨length, digitLine⟩
    have spans := digitLine.spans
    omega
  · intro thirds
    exact ⟨line.length / 3, hex, by omega, fits⟩

/-- A scan that breaks off makes the line an error. -/
theorem loadKeyLine_breaksOff
    {file : List Char}
    (breaksOff :
      (scanLine 0 file).stop = .tooLong ∨
        ∃ c, (scanLine 0 file).stop = .invalidCharacter c)
    (key nonce : List Byte)
    (keyLen nonceLen : Nat) :
    (loadKeyLine file key nonce keyLen nonceLen).result =
      if (scanLine 0 file).stop = .tooLong then
        .keyNonceBadLength
      else
        .keyInvalidCharacter := by
  unfold loadKeyLine
  rcases breaksOff with stop | ⟨c, stop⟩
  · simp [stop]
  · simp [stop]

/--
A line that `load_key_line` reads without an error consists of digits, as many
as divide by three and fit.
-/
theorem loadKeyLine_error
    (noNewline : '\n' ∉ line)
    (noDigits : ∀ keyLen, ¬ DigitLine keyLen line)
    (rest : List Char)
    (key nonce : List Byte)
    (keyLenBefore nonceLenBefore : Nat) :
    (loadKeyLine (line ++ '\n' :: rest) key nonce keyLenBefore
        nonceLenBefore).result =
        .keyNonceBadLength ∨
      (loadKeyLine (line ++ '\n' :: rest) key nonce keyLenBefore
        nonceLenBefore).result =
        .keyInvalidCharacter := by
  rcases line_cases line with hex | ⟨digits, c, more, rfl, hex, noDigit⟩
  · have stop := scanLine_stop hex (show isHexDigit '\n' = false by decide) rest
    by_cases overlong : rdrandMaxKeyLength * 2 + 1 < line.length
    · rw [if_pos overlong] at stop
      rw [loadKeyLine_breaksOff (.inl stop), if_pos stop]
      exact .inl rfl
    · have scan :=
        scanLine_append_digits hex
          (show 0 + line.length ≤ rdrandMaxKeyLength * 2 + 1 by omega)
          ('\n' :: rest)
      rw [scanLine_stops (by decide), List.append_nil] at scan
      have uneven : line.length / 3 * 2 + line.length / 3 ≠ line.length := by
        intro thirds
        obtain ⟨keyLen, digitLine⟩ :=
          (exists_digitLine_iff hex (Nat.le_of_not_lt overlong)).mpr thirds
        exact noDigits keyLen digitLine
      unfold loadKeyLine
      simp only [scan, if_true]
      rw [if_pos uneven]
      exact .inl rfl
  · have notNewline : c ≠ '\n' := by
      rintro rfl
      exact noNewline (List.mem_append_right _ List.mem_cons_self)
    have stop := scanLine_stop hex noDigit (more ++ '\n' :: rest)
    rw [if_neg notNewline] at stop
    rw [List.append_assoc, List.cons_append]
    split at stop
    · rw [loadKeyLine_breaksOff (.inl stop), if_pos stop]
      exact .inl rfl
    · rw [loadKeyLine_breaksOff (.inr ⟨_, stop⟩), stop]
      exact .inr rfl

/-- A last line without a newline leaves the loop. -/
theorem loadKeyLine_last
    (noNewline : '\n' ∉ line)
    (key nonce : List Byte)
    (keyLen nonceLen : Nat) :
    (loadKeyLine line key nonce keyLen nonceLen).result ≠ .ok ∧
      ((loadKeyLine line key nonce keyLen nonceLen).result = .eof ↔
        ∃ length, DigitLine length line) := by
  rcases line_cases line with hex | ⟨digits, c, more, rfl, hex, noDigit⟩
  · have whole : line.takeWhile isHexDigit = line :=
      List.takeWhile_eq_self_iff.mpr hex
    by_cases overlong : rdrandMaxKeyLength * 2 + 1 < line.length
    · rw [← whole] at overlong
      have stop := (scanLine_over overlong).2
      rw [loadKeyLine_breaksOff (.inl stop), if_pos stop]
      rw [whole] at overlong
      refine ⟨by decide, iff_of_false (by decide) ?_⟩
      rintro ⟨length, digitLine⟩
      exact Nat.not_le.mpr overlong digitLine.fits
    · have scan :=
        scanLine_append_digits hex
          (show 0 + line.length ≤ rdrandMaxKeyLength * 2 + 1 by omega) []
      simp only [List.append_nil, scanLine] at scan
      rw [exists_digitLine_iff hex (Nat.le_of_not_lt overlong)]
      unfold loadKeyLine
      simp only [scan]
      split
      · next uneven =>
          have badLength :
              FileError.keyNonceBadLength ≠ .ok ∧
                FileError.keyNonceBadLength ≠ .eof := by
            decide
          exact ⟨badLength.1, iff_of_false badLength.2 uneven⟩
      · next even =>
          have notOk : FileError.eof ≠ .ok := by
            decide
          exact ⟨notOk, iff_of_true rfl (Decidable.not_not.mp even)⟩
  · have notNewline : c ≠ '\n' := by
      rintro rfl
      exact noNewline (List.mem_append_right _ List.mem_cons_self)
    have noLine :
        ¬ ∃ length, DigitLine length (digits ++ c :: more) := by
      rintro ⟨length, digitLine⟩
      have digit :=
        digitLine.digits c
          (List.mem_append_right digits List.mem_cons_self)
      rw [noDigit] at digit
      cases digit
    have stop := scanLine_stop hex noDigit more
    rw [if_neg notNewline] at stop
    split at stop
    · rw [loadKeyLine_breaksOff (.inl stop), if_pos stop]
      exact ⟨by decide, iff_of_false (by decide) noLine⟩
    · rw [loadKeyLine_breaksOff (.inr ⟨_, stop⟩), stop,
        if_neg (by simp)]
      exact ⟨by decide, iff_of_false (by decide) noLine⟩

end Line

/-- An empty line yields no key. -/
theorem loadKeyLine_empty
    (rest : List Char)
    (keyBefore nonceBefore : List Byte)
    (keyLen nonceLen : Nat) :
    loadKeyLine ('\n' :: rest) keyBefore nonceBefore keyLen nonceLen =
      { result := .ok
        key := keyBefore
        keyLen := 0
        nonce := nonceBefore
        nonceLen := 0
        rest := rest
        unknown := none } := by
  simp [loadKeyLine, scanLine]

/-- Both allocations of a pass succeed. -/
structure Allocates (ssl : OpenSsl) (call : Nat) : Prop where
  key : ssl.mallocOk call = true
  nonce : ssl.mallocOk (call + 1) = true

/-- The state of the library after some passes. -/
def KeyLoad.aesAfter (load : KeyLoad) (passes : Nat) : AesState :=
  { load.aes with mallocCalls := load.aes.mallocCalls + 2 * passes }

section Passes

variable
  {ssl : OpenSsl}
  (heap : Nat → List Byte)
  {load : KeyLoad}

/-- A pass that cannot allocate its strings leaves the loop. -/
theorem loadKeysPass_failed
    (failed : ¬ Allocates ssl load.aes.mallocCalls) :
    loadKeysPass ssl heap load =
      .leave .error { load with aes := load.aesAfter 1 } := by
  unfold loadKeysPass
  have none :
      ssl.mallocOk load.aes.mallocCalls = false ∨
        ssl.mallocOk (load.aes.mallocCalls + 1) = false := by
    by_contra both
    simp only [not_or, Bool.not_eq_false] at both
    exact failed ⟨both.1, both.2⟩
  simp only [none, if_true]
  rfl

/-- A pass that can allocate its strings adds the line it reads. -/
theorem loadKeysPass_allocates
    (allocates : Allocates ssl load.aes.mallocCalls) :
    loadKeysPass ssl heap load =
      addKeyLine
        (loadKeyLine load.file (heap load.aes.mallocCalls)
          (heap (load.aes.mallocCalls + 1)) load.keyLen load.nonceLen)
        { load with aes := load.aesAfter 1 } := by
  unfold loadKeysPass
  simp only [allocates.key, allocates.nonce, Bool.true_eq_false, or_self,
    if_false]
  rfl

end Passes

end RdRand
