import Mathlib.Tactic.Ring

namespace CellMemory

/-!
# Memories of cells

A memory gives one cell to every address.  Storing a list of cells replaces
a run of consecutive addresses, and a window reads one back.
-/

variable {Cell : Type}

/-- Store consecutive cells from an address on. -/
def store
    (memory : Nat → Cell)
    (address : Nat)
    (cells : List Cell) : Nat → Cell :=
  fun query =>
    if address ≤ query then
      (cells[query - address]?).getD (memory query)
    else
      memory query

/-- The cells of `length` consecutive addresses. -/
def window
    (memory : Nat → Cell)
    (address length : Nat) : List Cell :=
  (List.range length).map fun index => memory (address + index)

/-- An address below a store keeps its cell. -/
theorem store_below
    {memory : Nat → Cell}
    {address query : Nat}
    {cells : List Cell}
    (below : query < address) :
    store memory address cells query = memory query := by
  simp [store, Nat.not_le.mpr below]

/-- An address past the end of a store keeps its cell. -/
theorem store_above
    {memory : Nat → Cell}
    {address query : Nat}
    {cells : List Cell}
    (above : address + cells.length ≤ query) :
    store memory address cells query = memory query := by
  have beyond : cells.length ≤ query - address := by
    omega
  simp [store, List.getElem?_eq_none beyond]

/-- An address inside a store holds the stored cell. -/
theorem store_inside
    {memory : Nat → Cell}
    {address query : Nat}
    {cells : List Cell}
    (atLeast : address ≤ query)
    (inside : query - address < cells.length) :
    store memory address cells query = cells[query - address] := by
  simp [store, atLeast, List.getElem?_eq_getElem inside]

/-- An address inside a store holds one of the stored cells. -/
theorem store_mem
    {memory : Nat → Cell}
    {address query : Nat}
    {cells : List Cell}
    (atLeast : address ≤ query)
    (below : query < address + cells.length) :
    store memory address cells query ∈ cells := by
  rw [store_inside atLeast (by omega)]
  exact List.getElem_mem _

/-- Every cell of a memory after a store is a stored one or an old one. -/
theorem store_eq_or_mem
    (memory : Nat → Cell)
    (address : Nat)
    (cells : List Cell)
    (query : Nat) :
    store memory address cells query = memory query ∨
      store memory address cells query ∈ cells := by
  by_cases atLeast : address ≤ query
  · by_cases below : query < address + cells.length
    · exact .inr (store_mem atLeast below)
    · exact .inl (store_above (by omega))
  · exact .inl (store_below (by omega))

@[simp] theorem window_length
    (memory : Nat → Cell)
    (address length : Nat) :
    (window memory address length).length = length := by
  simp [window]

@[simp] theorem window_getElem
    (memory : Nat → Cell)
    (address length index : Nat)
    (inBounds : index < (window memory address length).length) :
    (window memory address length)[index] = memory (address + index) := by
  simp [window]

/-- A cell of a window is the cell of an address the window covers. -/
theorem mem_window
    {memory : Nat → Cell}
    {address length : Nat}
    {cell : Cell} :
    cell ∈ window memory address length ↔
      ∃ index, index < length ∧ memory (address + index) = cell := by
  simp [window]

/-- A cell found in a window is the one at its address. -/
theorem window_found
    {memory : Nat → Cell}
    {address length index : Nat}
    {cell : Cell}
    (found : (window memory address length)[index]? = some cell) :
    index < length ∧ memory (address + index) = cell := by
  obtain ⟨inside, same⟩ := List.getElem?_eq_some_iff.mp found
  rw [window_getElem] at same
  rw [window_length] at inside
  exact ⟨inside, same⟩

/-- Reading back a store that fills the whole window gives the stored list. -/
theorem window_store
    (memory : Nat → Cell)
    (address : Nat)
    (cells : List Cell) :
    window (store memory address cells) address cells.length = cells := by
  apply List.ext_getElem
  · simp
  · intro index inWindow inCells
    rw [window_getElem,
      store_inside (Nat.le_add_right address index) (by simpa using inCells)]
    simp

/-- A window that reaches beyond a store begins with the stored cells. -/
theorem window_store_front
    (memory : Nat → Cell)
    (address : Nat)
    {cells : List Cell}
    {length : Nat}
    (fits : cells.length ≤ length) :
    cells <+: window (store memory address cells) address length := by
  rw [List.prefix_iff_eq_take]
  apply List.ext_getElem
  · simp [fits]
  · intro index inCells _
    rw [List.getElem_take, window_getElem,
      store_inside (Nat.le_add_right address index) (by simpa using inCells)]
    simp

/-- Store some runs of cells, each from its own address on, in order. -/
def storeAll
    (memory : Nat → Cell)
    (pieces : List (Nat × List Cell)) : Nat → Cell :=
  pieces.foldl
    (fun current piece => store current piece.1 piece.2)
    memory

/-- The runs follow each other without gaps from an address on. -/
def Tiles : Nat → List (Nat × List Cell) → Prop
  | _, [] => True
  | address, piece :: rest =>
      piece.1 = address ∧ Tiles (address + piece.2.length) rest

/-- Everything that some runs store, in order. -/
def contents (pieces : List (Nat × List Cell)) : List Cell :=
  pieces.flatMap Prod.snd

@[simp] theorem contents_nil :
    contents ([] : List (Nat × List Cell)) = [] :=
  rfl

@[simp] theorem contents_cons
    (piece : Nat × List Cell)
    (rest : List (Nat × List Cell)) :
    contents (piece :: rest) = piece.2 ++ contents rest :=
  List.flatMap_cons

/-- Two stores of adjacent runs are one store of both. -/
theorem store_append
    (memory : Nat → Cell)
    (address : Nat)
    (first second : List Cell) :
    store (store memory address first) (address + first.length) second =
      store memory address (first ++ second) := by
  funext query
  by_cases atLeast : address ≤ query
  · by_cases inFirst : query < address + first.length
    · rw [store_below inFirst, store_inside atLeast (by omega),
        store_inside atLeast (by simp; omega),
        List.getElem_append_left (by omega)]
    · by_cases inSecond :
          query < address + first.length + second.length
      · rw [store_inside (by omega) (by omega),
          store_inside atLeast (by simp; omega),
          List.getElem_append_right (by omega)]
        simp only [Nat.sub_sub]
      · rw [store_above (by omega), store_above (by omega),
          store_above (by simp; omega)]
  · rw [store_below (by omega), store_below (by omega),
      store_below (by omega)]

@[simp] theorem store_nil
    (memory : Nat → Cell)
    (address : Nat) :
    store memory address [] = memory := by
  funext query
  simp [store]

/-- Runs without gaps are stored like everything they hold at once. -/
theorem Tiles.storeAll
    {address : Nat}
    {pieces : List (Nat × List Cell)}
    (tiles : Tiles address pieces)
    (memory : Nat → Cell) :
    storeAll memory pieces = store memory address (contents pieces) := by
  induction pieces generalizing address memory with
  | nil =>
      simp [CellMemory.storeAll]
  | cons piece rest inductionHypothesis =>
      obtain ⟨here, later⟩ := tiles
      have step :
          CellMemory.storeAll memory (piece :: rest) =
            CellMemory.storeAll (store memory piece.1 piece.2) rest :=
        rfl
      rw [step, inductionHypothesis later, here, store_append,
        contents_cons]

/-- An address outside of all runs keeps its cell. -/
theorem storeAll_outside
    {pieces : List (Nat × List Cell)}
    {query : Nat}
    (outside :
      ∀ piece ∈ pieces,
        ¬ (piece.1 ≤ query ∧ query < piece.1 + piece.2.length))
    (memory : Nat → Cell) :
    storeAll memory pieces query = memory query := by
  induction pieces generalizing memory with
  | nil =>
      rfl
  | cons piece rest inductionHypothesis =>
      obtain ⟨first, others⟩ := List.forall_mem_cons.mp outside
      have step :
          storeAll memory (piece :: rest) =
            storeAll (store memory piece.1 piece.2) rest :=
        rfl
      rw [step, inductionHypothesis others]
      by_cases below : query < piece.1
      · exact store_below below
      · exact store_above (by omega)

/-- Runs in order that cover all their cells from an address have no gaps. -/
theorem tiles_of_covered
    {address : Nat}
    {pieces : List (Nat × List Cell)}
    (notBefore : ∀ piece ∈ pieces, address ≤ piece.1)
    (ordered :
      pieces.Pairwise fun first second =>
        first.1 + first.2.length ≤ second.1)
    (nonempty : ∀ piece ∈ pieces, 0 < piece.2.length)
    (covered :
      ∀ query,
        address ≤ query →
        query < address + (contents pieces).length →
        ∃ piece ∈ pieces,
          piece.1 ≤ query ∧ query < piece.1 + piece.2.length) :
    Tiles address pieces := by
  induction pieces generalizing address with
  | nil =>
      trivial
  | cons piece rest inductionHypothesis =>
      obtain ⟨behind, restOrdered⟩ := List.pairwise_cons.mp ordered
      have some := nonempty piece List.mem_cons_self
      simp only [contents_cons, List.length_append] at covered
      have here : piece.1 = address := by
        obtain ⟨other, member, atMost, _⟩ :=
          covered address (Nat.le_refl address) (by omega)
        have first := notBefore piece List.mem_cons_self
        rcases List.mem_cons.mp member with rfl | inRest
        · omega
        · have later := behind other inRest
          omega
      refine
        ⟨here,
          inductionHypothesis ?_ restOrdered
            (fun other member =>
              nonempty other (List.mem_cons_of_mem piece member))
            ?_⟩
      · intro other member
        have later := behind other member
        omega
      · intro query atLeast below
        obtain ⟨other, member, atMost, inside⟩ :=
          covered query (by omega) (by omega)
        rcases List.mem_cons.mp member with rfl | inRest
        · omega
        · exact ⟨other, inRest, atMost, inside⟩

/-- The extents of pieces of given lengths that follow each other. -/
def extents : Nat → List Nat → List (Nat × Nat)
  | _, [] => []
  | address, length :: rest =>
      (address, length) :: extents (address + length) rest

theorem extents_append
    (address : Nat)
    (first second : List Nat) :
    extents address (first ++ second) =
      extents address first ++ extents (address + first.sum) second := by
  induction first generalizing address with
  | nil =>
      rfl
  | cons length rest inductionHypothesis =>
      simp only [List.cons_append, extents, inductionHypothesis,
        List.sum_cons, Nat.add_assoc]

/-- Extents lie between the address they begin at and the sum's end. -/
theorem extents_within
    {address : Nat}
    {lengths : List Nat} :
    ∀ extent ∈ extents address lengths,
      address ≤ extent.1 ∧
        extent.1 + extent.2 ≤ address + lengths.sum := by
  induction lengths generalizing address with
  | nil =>
      intro extent member
      cases member
  | cons length rest inductionHypothesis =>
      intro extent member
      rw [List.sum_cons]
      rcases List.mem_cons.mp member with rfl | inRest
      · simp only
        omega
      · have later := inductionHypothesis extent inRest
        omega

/-- Pieces of whole units from an aligned address on lie at aligned ones. -/
theorem extents_aligned
    {unit address : Nat}
    {lengths : List Nat}
    (aligned : unit ∣ address)
    (whole : ∀ length ∈ lengths, unit ∣ length) :
    ∀ extent ∈ extents address lengths, unit ∣ extent.1 := by
  induction lengths generalizing address with
  | nil =>
      intro extent member
      cases member
  | cons length rest inductionHypothesis =>
      obtain ⟨firstWhole, restWhole⟩ := List.forall_mem_cons.mp whole
      intro extent member
      rcases List.mem_cons.mp member with rfl | inRest
      · exact aligned
      · exact
          inductionHypothesis (Nat.dvd_add aligned firstWhole) restWhole
            extent inRest

/-- Each extent has one of the lengths. -/
theorem length_mem_of_mem_extents
    {address : Nat}
    {lengths : List Nat} :
    ∀ extent ∈ extents address lengths, extent.2 ∈ lengths := by
  induction lengths generalizing address with
  | nil =>
      intro extent member
      cases member
  | cons length rest inductionHypothesis =>
      intro extent member
      rcases List.mem_cons.mp member with rfl | inRest
      · exact List.mem_cons_self
      · exact
          List.mem_cons_of_mem length
            (inductionHypothesis extent inRest)

/-- Each extent ends where a later one begins, or before. -/
theorem extents_ordered
    (address : Nat)
    (lengths : List Nat) :
    (extents address lengths).Pairwise fun first second =>
      first.1 + first.2 ≤ second.1 := by
  induction lengths generalizing address with
  | nil =>
      exact .nil
  | cons length rest inductionHypothesis =>
      refine List.pairwise_cons.mpr ⟨?_, inductionHypothesis _⟩
      intro extent member
      exact (extents_within extent member).1

end CellMemory
