import Mathlib.Tactic.Common

namespace CounterMode

/-!
# Counter mode

A cipher in counter mode adds a keystream to the data, symbol by symbol, and
keeps the number of symbols it has used.  Data that is processed in pieces is
processed as a whole, and the keystream cancels out of a difference.
-/

variable {width : Nat}

/-- Add a keystream to some data, from a position of the keystream on. -/
def apply
    (keystream : Nat → BitVec width) :
    Nat → List (BitVec width) → List (BitVec width)
  | _, [] => []
  | used, symbol :: rest =>
      (symbol ^^^ keystream used) :: apply keystream (used + 1) rest

/-- The difference of two pieces of data, symbol by symbol. -/
def difference
    (first second : List (BitVec width)) : List (BitVec width) :=
  List.zipWith (· ^^^ ·) first second

@[simp] theorem apply_length
    (keystream : Nat → BitVec width)
    (used : Nat)
    (data : List (BitVec width)) :
    (apply keystream used data).length = data.length := by
  induction data generalizing used with
  | nil =>
      rfl
  | cons symbol rest inductionHypothesis =>
      simp [apply, inductionHypothesis]

/-- One symbol of the data with the keystream added. -/
theorem apply_getElem?
    (keystream : Nat → BitVec width)
    (used : Nat)
    (data : List (BitVec width))
    (index : Nat) :
    (apply keystream used data)[index]? =
      data[index]?.map (· ^^^ keystream (used + index)) := by
  induction data generalizing used index with
  | nil =>
      rfl
  | cons symbol rest inductionHypothesis =>
      cases index with
      | zero =>
          rfl
      | succ index =>
          simp only [apply, List.getElem?_cons_succ,
            inductionHypothesis, Nat.add_right_comm used 1,
            Nat.add_assoc used]

/-- Adding a keystream twice gives the data back. -/
@[simp] theorem apply_apply
    (keystream : Nat → BitVec width)
    (used : Nat)
    (data : List (BitVec width)) :
    apply keystream used (apply keystream used data) = data := by
  induction data generalizing used with
  | nil =>
      rfl
  | cons symbol rest inductionHypothesis =>
      simp only [apply, inductionHypothesis, BitVec.xor_assoc,
        BitVec.xor_self, BitVec.xor_zero]

/-- The keystream cancels out of the difference of two encryptions. -/
theorem difference_apply
    (keystream : Nat → BitVec width)
    (used : Nat)
    {first second : List (BitVec width)}
    (sameLength : first.length = second.length) :
    difference (apply keystream used first)
        (apply keystream used second) =
      difference first second := by
  induction first generalizing used second with
  | nil =>
      cases second with
      | nil =>
          rfl
      | cons symbol rest =>
          cases sameLength
  | cons symbol rest inductionHypothesis =>
      cases second with
      | nil =>
          cases sameLength
      | cons other others =>
          have cancelled :
              (symbol ^^^ keystream used) ^^^
                  (other ^^^ keystream used) =
                symbol ^^^ other := by
            rw [BitVec.xor_assoc, ← BitVec.xor_assoc (keystream used),
              BitVec.xor_comm (keystream used), BitVec.xor_assoc,
              BitVec.xor_self, BitVec.xor_zero]
          have restLength : rest.length = others.length :=
            Nat.succ.inj sameLength
          have later := inductionHypothesis (used + 1) restLength
          simp only [difference, apply, List.zipWith_cons_cons,
            cancelled, List.cons.injEq, true_and] at later ⊢
          exact later

/-- The difference of data in two pieces. -/
theorem difference_append
    {first second firstRest secondRest : List (BitVec width)}
    (sameLength : first.length = second.length) :
    difference (first ++ firstRest) (second ++ secondRest) =
      difference first second ++ difference firstRest secondRest :=
  List.zipWith_append sameLength

end CounterMode
