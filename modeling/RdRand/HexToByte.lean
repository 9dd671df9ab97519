import RdRand.KeyFile

namespace RdRand

/-!
# Converting hexadecimal digits to bytes

`hexToByte` converts two digits of either case to a byte, with one call of
`sscanf` a byte.  A spelling of some bytes is converted to exactly these
bytes, and a length that is not twice the number of bytes is refused.
-/

open Hexadecimal

/-- A digit is no white space. -/
theorem isSpace_of_digitValue
    {c : Char}
    (digit : (digitValue c).isSome = true) :
    isSpace c = false := by
  have blank : ' '.toNat = 32 := rfl
  have zero : '0'.toNat = 48 := rfl
  have lower : 'a'.toNat = 97 := rfl
  have upper : 'A'.toNat = 65 := rfl
  have above : 33 ≤ c.toNat := by
    unfold digitValue at digit
    split at digit
    · next decimal =>
        have bound := decimal.1
        omega
    · split at digit
      · next lowerCase =>
          have bound := lowerCase.1
          omega
      · split at digit
        · next upperCase =>
            have bound := upperCase.1
            omega
        · cases digit
  have notBlank : c ≠ ' ' := by
    rintro rfl
    omega
  have notControl : ¬c.toNat ≤ 13 := by
    omega
  simp [isSpace, notBlank, notControl]

/-- `sscanf` reads two digits as their value. -/
theorem sscanfHex_digits
    {high low : Char}
    {highValue lowValue : Nat}
    (highDigit : digitValue high = some highValue)
    (lowDigit : digitValue low = some lowValue)
    (rest : List Char) :
    sscanfHex (high :: low :: rest) = some (16 * highValue + lowValue) := by
  have notSpace : isSpace high = false :=
    isSpace_of_digitValue (by rw [highDigit, Option.isSome_some])
  simp [sscanfHex, notSpace, highDigit, lowDigit]

/-- A spelling is converted to the bytes it spells. -/
theorem hexToByteLoop_spells
    {digits : List Char}
    {bytes : List Byte}
    (spelled : Spells digits bytes)
    (tail : List Char) :
    hexToByteLoop bytes.length (digits ++ tail) =
      { rc := 1, written := bytes } := by
  induction spelled with
  | nil =>
      rfl
  | byte highDigit lowDigit _ inductionHypothesis =>
      rw [List.length_cons, List.cons_append, List.cons_append,
        hexToByteLoop, sscanfHex_digits highDigit lowDigit]
      simp only [List.drop_succ_cons, List.drop_zero,
        inductionHypothesis, ofNat_halves]

/-- The length is compared with a product of `size_t`. -/
theorem hexToByte_spells_mod
    {digits : List Char}
    {bytes : List Byte}
    (spelled : Spells digits bytes)
    (tail : List Char) :
    hexToByte (digits ++ tail) (2 * bytes.length % sizeModulus)
        bytes.length =
      { rc := 1, written := bytes } := by
  unfold hexToByte
  rw [if_neg (fun different => different rfl)]
  exact hexToByteLoop_spells spelled tail

theorem hexToByte_spells
    {digits : List Char}
    {bytes : List Byte}
    (spelled : Spells digits bytes)
    (bounded : 2 * bytes.length < sizeModulus)
    (tail : List Char) :
    hexToByte (digits ++ tail) (2 * bytes.length) bytes.length =
      { rc := 1, written := bytes } := by
  have converted := hexToByte_spells_mod spelled tail
  rwa [Nat.mod_eq_of_lt bounded] at converted

/-- A length that is not twice the number of bytes is refused. -/
theorem hexToByte_length
    {hexLength byteLength : Nat}
    (bounded : 2 * byteLength < sizeModulus)
    (different : hexLength ≠ 2 * byteLength)
    (hex : List Char) :
    hexToByte hex hexLength byteLength = { rc := 0, written := [] } := by
  unfold hexToByte
  rw [Nat.mod_eq_of_lt bounded, if_pos different]

/-- A string that was written to begins with what was written. -/
theorem take_overwrite
    {bytes : List Byte}
    {length : Nat}
    (whole : bytes.length = length)
    (before : List Byte) :
    (KeyArray.overwrite bytes before).take length = bytes := by
  rw [KeyArray.overwrite, ← whole, List.take_left]

/-- Behind what was written a string is as before. -/
theorem drop_overwrite (bytes before : List Byte) :
    (KeyArray.overwrite bytes before).drop bytes.length =
      before.drop bytes.length := by
  rw [KeyArray.overwrite, List.drop_left]

/--
What a conversion makes of a spelling of some bytes: exactly these bytes at
the front of the destination and nothing behind them, so that the spelling in
lower case is got back from the destination.
-/
structure HexLaw
    (digits : List Char)
    (bytes out : List Byte)
    (result : HexResult) : Prop where
  accepted : result.rc = 1
  exactly : result.written = bytes
  front :
    (KeyArray.overwrite result.written out).take bytes.length = bytes
  beyond :
    (KeyArray.overwrite result.written out).drop bytes.length =
      out.drop bytes.length
  encodedAgain :
    spelling
        ((KeyArray.overwrite result.written out).take bytes.length) =
      digits.map Char.toLower

/--
Every spelling of some bytes is converted to them, whatever follows it and
whatever the destination holds, and every other length is refused.
-/
theorem hexToByte_hexLaw
    {digits : List Char}
    {bytes : List Byte}
    (spelled : Spells digits bytes)
    (tail : List Char)
    (out : List Byte) :
    HexLaw digits bytes out
        (hexToByte (digits ++ tail) (2 * bytes.length % sizeModulus)
          bytes.length) ∧
      ∀ (hex : List Char) (hexLength byteLength : Nat),
        2 * byteLength < sizeModulus →
        hexLength ≠ 2 * byteLength →
        hexToByte hex hexLength byteLength =
          { rc := 0, written := [] } := by
  refine ⟨?_, fun hex _ _ bounded different =>
    hexToByte_length bounded different hex⟩
  have front := take_overwrite (rfl : bytes.length = _) out
  rw [hexToByte_spells_mod spelled tail]
  exact
    { accepted := rfl
      exactly := rfl
      front := front
      beyond := drop_overwrite bytes out
      encodedAgain := by
        rw [front]
        exact spelled.spelling }

/-- Two bytes in digits of either case, with a digit behind them. -/
theorem hexToByte_hexLaw_twoBytes :
    HexLaw ['0', 'a', 'F', '9'] [0x0a, 0xf9] [1, 2, 3]
        (hexToByte (['0', 'a', 'F', '9'] ++ ['7'])
          (2 * 2 % sizeModulus) 2) ∧
      ∀ (hex : List Char) (hexLength byteLength : Nat),
        2 * byteLength < sizeModulus →
        hexLength ≠ 2 * byteLength →
        hexToByte hex hexLength byteLength =
          { rc := 0, written := [] } :=
  hexToByte_hexLaw
    (.byte (by decide) (by decide)
      (.byte (by decide) (by decide) .nil))
    ['7'] [1, 2, 3]

end RdRand
