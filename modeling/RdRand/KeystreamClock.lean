import Mathlib.Data.List.Nodup
import Mathlib.Data.List.Range

namespace KeystreamClock

/-!
# Clocks for keystreams

A cipher in counter mode is keyed from time to time, and between two keyings
it uses up its keystream symbol by symbol.  A clock counts the keyings and
the symbols used since the last one.  A place in the keystreams that a clock
has passed never comes again, so no place is used twice.  A symbol of a
keystream is used twice only where two keyings use the same keystream.
-/

/-- The keyings so far, and the symbols used since the last one. -/
structure Clock where
  keyings : Nat
  used : Nat
  deriving Repr, DecidableEq

/-- A keying, and a position in the keystream since then. -/
abbrev Place := Nat × Nat

namespace Clock

/-- The next places in the keystream. -/
def places (clock : Clock) (count : Nat) : List Place :=
  (List.range' clock.used count).map fun position =>
    (clock.keyings, position)

/-- The clock after so many symbols. -/
def advance (clock : Clock) (count : Nat) : Clock :=
  { clock with used := clock.used + count }

/-- The clock after a keying. -/
def rekey (clock : Clock) : Clock where
  keyings := clock.keyings + 1
  used := 0

/-- The place comes before the next one. -/
def Passed (clock : Clock) (place : Place) : Prop :=
  place.1 < clock.keyings ∨
    place.1 = clock.keyings ∧ place.2 < clock.used

variable {clock : Clock} {place : Place} {count : Nat}

@[simp] theorem places_length :
    (clock.places count).length = count := by
  simp [places]

/-- The next places belong to the current keying. -/
theorem mem_places_iff :
    place ∈ clock.places count ↔
      place.1 = clock.keyings ∧
        clock.used ≤ place.2 ∧
        place.2 < clock.used + count := by
  obtain ⟨keying, position⟩ := place
  simp only [places, List.mem_map, List.mem_range'_1, Prod.mk.injEq]
  constructor
  · rintro ⟨other, bounds, rfl, rfl⟩
    exact ⟨rfl, bounds⟩
  · rintro ⟨same, bounds⟩
    exact ⟨position, bounds, same.symm, rfl⟩

theorem nodup_places : (clock.places count).Nodup := by
  refine List.Nodup.map ?_ (List.nodup_range' 1)
  intro first second same
  exact (Prod.mk.inj same).2

/-- What was passed stays so, whatever the clock does. -/
theorem Passed.advance
    (passed : clock.Passed place)
    (count : Nat) :
    (clock.advance count).Passed place := by
  rcases passed with earlier | ⟨same, below⟩
  · exact .inl earlier
  · exact .inr ⟨same, Nat.lt_add_right count below⟩

theorem Passed.rekey
    (passed : clock.Passed place) :
    clock.rekey.Passed place := by
  rcases passed with earlier | ⟨same, _⟩
  · exact .inl (Nat.lt_succ_of_lt earlier)
  · exact .inl (Nat.lt_succ_of_le (Nat.le_of_eq same))

/-- The clock passes the places that it advances over. -/
theorem passed_of_mem_places
    (member : place ∈ clock.places count) :
    (clock.advance count).Passed place := by
  obtain ⟨same, _, below⟩ := mem_places_iff.mp member
  exact .inr ⟨same, below⟩

/-- The next places have not been passed. -/
theorem not_passed_of_mem_places
    (member : place ∈ clock.places count) :
    ¬ clock.Passed place := by
  obtain ⟨same, above, _⟩ := mem_places_iff.mp member
  rintro (earlier | ⟨_, below⟩)
  · exact Nat.ne_of_lt earlier same
  · exact Nat.not_lt.mpr above below

end Clock

/-- The places that are used while a clock goes on. -/
inductive Ticks (start : Clock) : List Place → Clock → Prop where
  | start : Ticks start [] start
  | advance
      {places : List Place}
      {clock : Clock}
      (ticks : Ticks start places clock)
      (count : Nat) :
      Ticks start (places ++ clock.places count) (clock.advance count)
  | rekey
      {places : List Place}
      {clock : Clock}
      (ticks : Ticks start places clock) :
      Ticks start places clock.rekey

namespace Ticks

variable
  {start middle final : Clock}
  {places more : List Place}

theorem trans
    (first : Ticks start places middle)
    (second : Ticks middle more final) :
    Ticks start (places ++ more) final := by
  induction second with
  | start =>
      rw [List.append_nil]
      exact first
  | advance _ count inductionHypothesis =>
      rw [← List.append_assoc]
      exact inductionHypothesis.advance count
  | rekey _ inductionHypothesis =>
      exact inductionHypothesis.rekey

/-- Every place that was used is passed. -/
theorem passed
    (ticks : Ticks start places final) :
    ∀ place ∈ places, final.Passed place := by
  induction ticks with
  | start =>
      exact nofun
  | advance _ count inductionHypothesis =>
      intro place member
      rcases List.mem_append.mp member with earlier | next
      · exact (inductionHypothesis place earlier).advance count
      · exact Clock.passed_of_mem_places next
  | rekey _ inductionHypothesis =>
      exact fun place member => (inductionHypothesis place member).rekey

/-- No place is used twice. -/
theorem nodup
    (ticks : Ticks start places final) :
    places.Nodup := by
  induction ticks with
  | start =>
      exact List.nodup_nil
  | advance ticks count inductionHypothesis =>
      refine
        List.nodup_append'.mpr
          ⟨inductionHypothesis, Clock.nodup_places, ?_⟩
      intro place earlier next
      exact
        Clock.not_passed_of_mem_places next (ticks.passed place earlier)
  | rekey _ inductionHypothesis =>
      exact inductionHypothesis

/-- A keystream of which anything is used is used from its first symbol on. -/
theorem fromFirst
    (ticks : Ticks start places final)
    (fresh : start.used = 0) :
    (∀ place ∈ places, (place.1, 0) ∈ places) ∧
      (final.used = 0 ∨ (final.keyings, 0) ∈ places) := by
  induction ticks with
  | start =>
      exact ⟨nofun, .inl fresh⟩
  | @advance places clock _ count inductionHypothesis =>
      obtain ⟨earlier, current⟩ := inductionHypothesis
      have first :
          0 < count →
            (clock.keyings, 0) ∈ places ++ clock.places count := by
        intro some
        rcases current with unused | used
        · refine List.mem_append_right _ (Clock.mem_places_iff.mpr ?_)
          simpa [unused] using some
        · exact List.mem_append_left _ used
      refine ⟨?_, ?_⟩
      · intro place member
        rcases List.mem_append.mp member with inEarlier | inNext
        · exact List.mem_append_left _ (earlier place inEarlier)
        · obtain ⟨same, above, below⟩ := Clock.mem_places_iff.mp inNext
          rw [same]
          exact first (by omega)
      · rcases Nat.eq_zero_or_pos count with rfl | some
        · rcases current with unused | used
          · exact .inl unused
          · exact .inr (List.mem_append_left _ used)
        · exact .inr (first some)
  | rekey _ inductionHypothesis =>
      exact ⟨inductionHypothesis.1, .inl rfl⟩

/--
No symbol of a keystream is used twice if and only if no two keyings of which
anything is used have the same keystream.
-/
theorem nodup_symbols_iff
    {Keystream : Type}
    (keystream : Nat → Keystream)
    (ticks : Ticks start places final)
    (fresh : start.used = 0) :
    (places.map fun place => (keystream place.1, place.2)).Nodup ↔
      ∀ first ∈ places,
        ∀ second ∈ places,
          keystream first.1 = keystream second.1 →
          first.1 = second.1 := by
  constructor
  · intro nodup first inFirst second inSecond same
    have beginnings := (ticks.fromFirst fresh).1
    have equal :=
      List.inj_on_of_nodup_map nodup (beginnings first inFirst)
        (beginnings second inSecond) (by rw [same])
    exact (Prod.mk.inj equal).1
  · intro differ
    refine List.Nodup.map_on ?_ ticks.nodup
    intro first inFirst second inSecond same
    obtain ⟨sameKeystream, sameOffset⟩ := Prod.mk.inj same
    exact
      Prod.ext (differ first inFirst second inSecond sameKeystream)
        sameOffset

end Ticks

end KeystreamClock
