import Mathlib.Tactic.Common

namespace Hexadecimal

/-!
# Hexadecimal spellings

A byte is spelled by two hexadecimal digits of either case.  A spelling of a
string of bytes falls apart where the string does.
-/

/-- The character is between two others. -/
def Between (first last character : Char) : Prop :=
  first.toNat ≤ character.toNat ∧ character.toNat ≤ last.toNat

instance (first last character : Char) :
    Decidable (Between first last character) :=
  inferInstanceAs (Decidable (_ ∧ _))

/-- The value of a hexadecimal digit of either case. -/
def digitValue (character : Char) : Option Nat :=
  if Between '0' '9' character then
    some (character.toNat - '0'.toNat)
  else if Between 'a' 'f' character then
    some (character.toNat - 'a'.toNat + 10)
  else if Between 'A' 'F' character then
    some (character.toNat - 'A'.toNat + 10)
  else
    none

/-- The value of a digit, and the lower case of that digit. -/
theorem digitValue_spec
    {character : Char}
    {value : Nat}
    (digit : digitValue character = some value) :
    value < 16 ∧ Nat.digitChar value = character.toLower := by
  have ascii :
      ∀ code : Fin 128,
        ∀ value ∈ digitValue (Char.ofNat code.val),
          value < 16 ∧
            Nat.digitChar value = (Char.ofNat code.val).toLower := by
    decide
  have zero : '9'.toNat = 57 := rfl
  have lower : 'f'.toNat = 102 := rfl
  have upper : 'F'.toNat = 70 := rfl
  have small : character.toNat < 128 := by
    unfold digitValue at digit
    split at digit
    · next decimal =>
        have bound := decimal.2
        omega
    · split at digit
      · next lowerCase =>
          have bound := lowerCase.2
          omega
      · split at digit
        · next upperCase =>
            have bound := upperCase.2
            omega
        · cases digit
  have spec := ascii ⟨character.toNat, small⟩ value
  rw [Char.ofNat_toNat] at spec
  exact spec digit

/-- Two digits for each byte, the high half first. -/
inductive Spells : List Char → List (BitVec 8) → Prop where
  | nil : Spells [] []
  | byte
      {high low : Char}
      {digits : List Char}
      {byte : BitVec 8}
      {bytes : List (BitVec 8)}
      (highDigit : digitValue high = some (byte.toNat / 16))
      (lowDigit : digitValue low = some (byte.toNat % 16))
      (rest : Spells digits bytes) :
      Spells (high :: low :: digits) (byte :: bytes)

/-- The halves of a byte make up the byte. -/
theorem ofNat_halves (byte : BitVec 8) :
    BitVec.ofNat 8 (16 * (byte.toNat / 16) + byte.toNat % 16) = byte := by
  rw [Nat.div_add_mod]
  exact BitVec.ofNat_toNat 8 byte

/-- A spelling has two digits for each byte. -/
theorem Spells.length
    {digits : List Char}
    {bytes : List (BitVec 8)}
    (spelled : Spells digits bytes) :
    digits.length = 2 * bytes.length := by
  induction spelled with
  | nil =>
      rfl
  | byte _ _ _ inductionHypothesis =>
      simp only [List.length_cons, inductionHypothesis]
      omega

/-- Every character of a spelling is a digit. -/
theorem Spells.isDigit
    {digits : List Char}
    {bytes : List (BitVec 8)}
    (spelled : Spells digits bytes) :
    ∀ digit ∈ digits, (digitValue digit).isSome = true := by
  induction spelled with
  | nil =>
      intro digit member
      cases member
  | byte highDigit lowDigit _ inductionHypothesis =>
      intro digit member
      rcases List.mem_cons.mp member with rfl | member
      · rw [highDigit, Option.isSome_some]
      · rcases List.mem_cons.mp member with rfl | member
        · rw [lowDigit, Option.isSome_some]
        · exact inductionHypothesis digit member

/-- A spelling of two strings is a spelling of each. -/
theorem Spells.split
    {digits : List Char}
    {first second : List (BitVec 8)}
    (spelled : Spells digits (first ++ second)) :
    Spells (digits.take (2 * first.length)) first ∧
      Spells (digits.drop (2 * first.length)) second := by
  induction first generalizing digits with
  | nil =>
      exact ⟨.nil, spelled⟩
  | cons byte rest inductionHypothesis =>
      cases spelled with
      | byte highDigit lowDigit later =>
          obtain ⟨front, back⟩ := inductionHypothesis later
          rw [List.length_cons, Nat.mul_succ, List.take_succ_cons,
            List.take_succ_cons, List.drop_succ_cons,
            List.drop_succ_cons]
          exact ⟨.byte highDigit lowDigit front, back⟩

/-- Two digits are the halves of a byte. -/
theorem ofDigits_halves
    {high low : Nat}
    (highSmall : high < 16)
    (lowSmall : low < 16) :
    (BitVec.ofNat 8 (16 * high + low)).toNat / 16 = high ∧
      (BitVec.ofNat 8 (16 * high + low)).toNat % 16 = low := by
  rw [BitVec.toNat_ofNat, Nat.mod_eq_of_lt (by omega)]
  omega

/-- An even number of digits spells some bytes. -/
theorem exists_spells
    {digits : List Char}
    (allDigits : ∀ digit ∈ digits, (digitValue digit).isSome = true)
    {count : Nat}
    (even : digits.length = 2 * count) :
    ∃ bytes, Spells digits bytes ∧ bytes.length = count := by
  induction count generalizing digits with
  | zero =>
      rw [List.length_eq_zero_iff.mp even]
      exact ⟨[], .nil, rfl⟩
  | succ count inductionHypothesis =>
      match digits, even with
      | high :: low :: rest, even =>
          obtain ⟨highValue, highDigit⟩ :=
            Option.isSome_iff_exists.mp
              (allDigits high List.mem_cons_self)
          obtain ⟨lowValue, lowDigit⟩ :=
            Option.isSome_iff_exists.mp
              (allDigits low
                (List.mem_cons_of_mem high List.mem_cons_self))
          obtain ⟨highHalf, lowHalf⟩ :=
            ofDigits_halves (digitValue_spec highDigit).1
              (digitValue_spec lowDigit).1
          obtain ⟨bytes, spelled, length⟩ :=
            inductionHypothesis
              (fun digit member =>
                allDigits digit
                  (List.mem_cons_of_mem high
                    (List.mem_cons_of_mem low member)))
              (by simp only [List.length_cons] at even; omega)
          exact
            ⟨_ :: bytes,
              .byte (highDigit.trans (congrArg some highHalf.symm))
                (lowDigit.trans (congrArg some lowHalf.symm)) spelled,
              congrArg (· + 1) length⟩

/-- Spellings after one another spell the bytes after one another. -/
theorem Spells.append
    {first second : List Char}
    {bytes more : List (BitVec 8)}
    (spelled : Spells first bytes)
    (later : Spells second more) :
    Spells (first ++ second) (bytes ++ more) := by
  induction spelled with
  | nil =>
      exact later
  | byte highDigit lowDigit _ inductionHypothesis =>
      exact .byte highDigit lowDigit inductionHypothesis

/-- The spelling of some bytes in lower case. -/
def spelling (bytes : List (BitVec 8)) : List Char :=
  bytes.flatMap fun byte =>
    [Nat.digitChar (byte.toNat / 16), Nat.digitChar (byte.toNat % 16)]

/-- Every spelling of some bytes is that one, up to the case. -/
theorem Spells.spelling
    {digits : List Char}
    {bytes : List (BitVec 8)}
    (spelled : Spells digits bytes) :
    Hexadecimal.spelling bytes = digits.map Char.toLower := by
  induction spelled with
  | nil =>
      rfl
  | byte highDigit lowDigit _ inductionHypothesis =>
      rw [Hexadecimal.spelling, List.flatMap_cons,
        (digitValue_spec highDigit).2, (digitValue_spec lowDigit).2]
      exact congrArg (_ :: _ :: ·) inductionHypothesis

end Hexadecimal
