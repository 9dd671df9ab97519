import Mathlib.Data.List.Basic
import Mathlib.Data.List.Induction
import RdRand.CellMemory

namespace CellMemory

/-!
# Memories in slices

A memory that is divided into slices of one size, and filled slice by slice in
any order.  The slice that is filled in a turn gets the cells of that turn, so
that the order only decides where the cells of a turn come to lie.
-/

variable {Cell : Type}

/-- A window is read in two parts. -/
theorem window_add
    (memory : Nat → Cell)
    (address first second : Nat) :
    window memory address (first + second) =
      window memory address first ++
        window memory (address + first) second := by
  simp only [window, List.range_add, List.map_append, List.map_map,
    Function.comp_def, Nat.add_assoc]

/-- A window over whole slices is read slice by slice. -/
theorem window_slices
    (memory : Nat → Cell)
    (size count : Nat) :
    window memory 0 (size * count) =
      (List.range count).flatMap fun slice =>
        window memory (slice * size) size := by
  induction count with
  | zero =>
      rfl
  | succ count inductionHypothesis =>
      rw [Nat.mul_succ, window_add, inductionHypothesis,
        List.range_succ, List.flatMap_append, Nat.zero_add,
        Nat.mul_comm size count]
      simp only [List.flatMap_cons, List.flatMap_nil, List.append_nil]

/-- A window is the same in memories that agree on its addresses. -/
theorem window_congr
    {first second : Nat → Cell}
    {address length : Nat}
    (agree :
      ∀ query,
        address ≤ query →
        query < address + length →
        first query = second query) :
    window first address length = window second address length := by
  refine List.map_congr_left fun index member => ?_
  have below := List.mem_range.mp member
  exact agree _ (Nat.le_add_right _ _) (Nat.add_lt_add_left below _)

/-- The runs that slices are filled with, one slice in each turn. -/
def sliceRuns
    (size : Nat)
    (cells : Nat → List Cell)
    (order : List Nat) : List (Nat × List Cell) :=
  order.zipIdx.map fun turn => (turn.1 * size, cells turn.2)

@[simp] theorem sliceRuns_nil
    (size : Nat)
    (cells : Nat → List Cell) :
    sliceRuns size cells [] = [] :=
  rfl

/-- The slice of the last turn. -/
theorem sliceRuns_snoc
    (size : Nat)
    (cells : Nat → List Cell)
    (order : List Nat)
    (slice : Nat) :
    sliceRuns size cells (order ++ [slice]) =
      sliceRuns size cells order ++
        [(slice * size, cells order.length)] := by
  simp [sliceRuns, List.zipIdx_append]

theorem storeAll_snoc
    (memory : Nat → Cell)
    (runs : List (Nat × List Cell))
    (run : Nat × List Cell) :
    storeAll memory (runs ++ [run]) =
      store (storeAll memory runs) run.1 run.2 := by
  simp [storeAll]

/-- Different slices do not overlap. -/
theorem slices_apart
    {size first second query : Nat}
    (different : first ≠ second)
    (inFirst :
      first * size ≤ query ∧ query < first * size + size) :
    query < second * size ∨ second * size + size ≤ query := by
  rcases Nat.lt_or_gt_of_ne different with less | greater
  · left
    have before := Nat.mul_le_mul_right size (Nat.succ_le_of_lt less)
    rw [Nat.succ_mul] at before
    exact Nat.lt_of_lt_of_le inFirst.2 before
  · right
    have behind := Nat.mul_le_mul_right size (Nat.succ_le_of_lt greater)
    rw [Nat.succ_mul] at behind
    exact Nat.le_trans behind inFirst.1

section Filled

variable
  {size : Nat}
  {cells : Nat → List Cell}
  (lengths : ∀ turn, (cells turn).length = size)

include lengths

/-- A slice holds the cells of the turn in which it was filled. -/
theorem window_sliceRuns
    {order : List Nat}
    (different : order.Nodup)
    {slice : Nat}
    (member : slice ∈ order)
    (memory : Nat → Cell) :
    window (storeAll memory (sliceRuns size cells order))
        (slice * size) size =
      cells (order.idxOf slice) := by
  induction order using List.reverseRecOn with
  | nil =>
      cases member
  | append_singleton earlier last inductionHypothesis =>
      obtain ⟨earlierDifferent, _, fresh⟩ := List.nodup_append.mp different
      rw [sliceRuns_snoc, storeAll_snoc]
      by_cases same : slice = last
      · subst same
        have absent : slice ∉ earlier := fun before =>
          fresh slice before slice List.mem_cons_self rfl
        rw [List.idxOf_append_of_notMem absent, List.idxOf_cons_self,
          Nat.add_zero]
        have whole :=
          window_store (storeAll memory (sliceRuns size cells earlier))
            (slice * size) (cells earlier.length)
        rwa [lengths] at whole
      · have before : slice ∈ earlier := by
          simpa [same] using member
        rw [List.idxOf_append_of_mem before,
          ← inductionHypothesis earlierDifferent before]
        refine window_congr fun query atLeast below => ?_
        rcases slices_apart same ⟨atLeast, below⟩ with less | greater
        · exact store_below less
        · refine store_above ?_
          rw [lengths]
          exact greater

/-- Slices that are filled in any order. -/
theorem window_sliceRuns_perm
    {order : List Nat}
    {count : Nat}
    (perm : order.Perm (List.range count))
    (memory : Nat → Cell) :
    window (storeAll memory (sliceRuns size cells order))
        0 (size * count) =
      (List.range count).flatMap fun slice =>
        cells (order.idxOf slice) := by
  rw [window_slices]
  refine List.flatMap_congr fun slice member => ?_
  exact
    window_sliceRuns lengths (perm.nodup_iff.mpr List.nodup_range)
      (perm.mem_iff.mpr member) memory

end Filled

/-- Every slice has its turn. -/
theorem turns_perm
    {order : List Nat}
    {count : Nat}
    (perm : order.Perm (List.range count)) :
    ((List.range count).map fun slice => order.idxOf slice).Perm
      (List.range count) := by
  have different : order.Nodup := perm.nodup_iff.mpr List.nodup_range
  have turns :
      (order.map fun slice => order.idxOf slice) = List.range count := by
    refine List.ext_getElem ?_ ?_
    · simp [perm.length_eq]
    · intro turn inTurns _
      rw [List.getElem_map, List.getElem_range,
        different.idxOf_getElem turn]
  have same := perm.map fun slice => order.idxOf slice
  rw [turns] at same
  exact same.symm

end CellMemory
