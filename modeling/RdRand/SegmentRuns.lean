import RdRand.NarrowArrays

namespace RdRand

/-!
# Where a run over segments is a front of its target

A segment that comes after one that came short may get values although bytes
before it are missing.  What a run stores has no gap exactly where, after the
first acquisition that comes short, all others do.
-/

/-- No segment that has a piece gets a value for its first one. -/
def Starved
    (acquire : Nat → Acquisition) :
    List (List Nat) → Nat → Prop
  | [], _ => True
  | [] :: later, position =>
      Starved acquire later position
  | (_ :: _) :: later, position =>
      (acquire position).value = none ∧
        Starved acquire later (acquire position).position

/-- After the first acquisition that comes short all others do, too. -/
inductive StaysShort
    (acquire : Nat → Acquisition) :
    List (List Nat) → Nat → Prop where
  | finished
      {position : Nat} :
      StaysShort acquire [] position
  | next
      {later : List (List Nat)}
      {position : Nat}
      (stays : StaysShort acquire later position) :
      StaysShort acquire ([] :: later) position
  | served
      {piece : Nat}
      {rest : List Nat}
      {later : List (List Nat)}
      {position : Nat}
      {value : Word}
      (saved : (acquire position).value = some value)
      (stays :
        StaysShort acquire (rest :: later)
          (acquire position).position) :
      StaysShort acquire ((piece :: rest) :: later) position
  | short
      {piece : Nat}
      {rest : List Nat}
      {later : List (List Nat)}
      {position : Nat}
      (missed : (acquire position).value = none)
      (starved : Starved acquire later (acquire position).position) :
      StaysShort acquire ((piece :: rest) :: later) position

section Short

variable
  {acquire : Nat → Acquisition}
  {later : List (List Nat)}
  {position : Nat}

theorem staysShort_next_iff :
    StaysShort acquire ([] :: later) position ↔
      StaysShort acquire later position := by
  refine ⟨fun stays => ?_, fun stays => .next stays⟩
  cases stays with
  | next rest =>
      exact rest

/-- A piece that gets a value leaves the condition to what follows. -/
theorem staysShort_served_iff
    {value : Word}
    (saved : (acquire position).value = some value)
    (piece : Nat)
    (rest : List Nat) :
    StaysShort acquire ((piece :: rest) :: later) position ↔
      StaysShort acquire (rest :: later)
        (acquire position).position := by
  refine ⟨fun stays => ?_, fun stays => .served saved stays⟩
  cases stays with
  | served _ others =>
      exact others
  | short missed _ =>
      rw [saved] at missed
      cases missed

/-- A piece that gets none wants the later segments to be starved. -/
theorem staysShort_short_iff
    (missed : (acquire position).value = none)
    (piece : Nat)
    (rest : List Nat) :
    StaysShort acquire ((piece :: rest) :: later) position ↔
      Starved acquire later (acquire position).position := by
  refine ⟨fun stays => ?_, fun starved => .short missed starved⟩
  cases stays with
  | served saved _ =>
      rw [missed] at saved
      cases saved
  | short _ starved =>
      exact starved

end Short

/-- The address of a store and its number of bytes. -/
def Store.extent (store : Store) : Nat × Nat :=
  (store.address, store.bytes.length)

/-- The cells of a store from its address on. -/
def Store.run (store : Store) : Nat × List Cell :=
  (store.address, store.cells)

namespace SegmentRun

variable
  {acquire : Nat → Acquisition}
  {segments : List (List Nat)}
  {dest position final : Nat}
  {stores : List Store}

/-- A fill that serves one segment and then the run of the others. -/
theorem afterFill
    {pieces : List Nat}
    {later : List (List Nat)}
    {unit : Nat}
    {fill : Fill}
    (serves : fill.Serves acquire pieces unit dest position)
    (run :
      SegmentRun acquire later (dest + pieces.sum) fill.position
        stores final) :
    SegmentRun acquire (pieces :: later) dest position
      (fill.stores ++ stores) final := by
  rw [serves.position] at run
  rw [serves.stores]
  exact run.segment

/-- A run stores only pieces of its segments, in their order. -/
theorem extents_sublist
    (run : SegmentRun acquire segments dest position stores final)
    (small : ∀ piece ∈ segments.flatten, piece ≤ 8) :
    (stores.map Store.extent).Sublist
      (CellMemory.extents dest segments.flatten) := by
  induction run with
  | finished =>
      exact .refl []
  | next run inductionHypothesis =>
      exact inductionHypothesis small
  | served saved run inductionHypothesis =>
      obtain ⟨firstSmall, restSmall⟩ := List.forall_mem_cons.mp small
      simp only [List.map_cons, Store.extent, List.length_take,
        wordBytes_length, Nat.min_eq_left firstSmall]
      exact .cons_cons _ (inductionHypothesis restSmall)
  | @short piece rest later dest _ _ _ missed run inductionHypothesis =>
      have skipped :
          ((piece :: rest) :: later).flatten =
            (piece :: rest) ++ later.flatten :=
        List.flatten_cons
      have laterSmall :
          ∀ other ∈ later.flatten, other ≤ 8 := by
        intro other member
        apply small
        rw [skipped]
        exact List.mem_append_right _ member
      rw [skipped, CellMemory.extents_append, List.sum_cons]
      exact
        (inductionHypothesis laterSmall).trans
          (List.sublist_append_right _ _)

theorem extent_mem
    (run : SegmentRun acquire segments dest position stores final)
    (small : ∀ piece ∈ segments.flatten, piece ≤ 8)
    {store : Store}
    (member : store ∈ stores) :
    store.extent ∈ CellMemory.extents dest segments.flatten :=
  (run.extents_sublist small).subset (List.mem_map_of_mem member)

/-- A run stores nothing exactly where all its segments are starved. -/
theorem stores_nil_iff
    (run : SegmentRun acquire segments dest position stores final) :
    stores = [] ↔ Starved acquire segments position := by
  induction run with
  | finished =>
      exact ⟨fun _ => trivial, fun _ => rfl⟩
  | next run inductionHypothesis =>
      exact inductionHypothesis
  | served saved run inductionHypothesis =>
      simp [Starved, saved]
  | short missed run inductionHypothesis =>
      rw [inductionHypothesis]
      simp [Starved, missed]

/-- A run that begins behind an address has no gap there only if it is empty. -/
theorem tiles_behind_iff
    (run : SegmentRun acquire segments dest position stores final)
    (small : ∀ piece ∈ segments.flatten, piece ≤ 8)
    {address : Nat}
    (behind : address < dest) :
    CellMemory.Tiles address (stores.map Store.run) ↔ stores = [] := by
  constructor
  · intro tiles
    cases stores with
    | nil =>
        rfl
    | cons store others =>
        have here : store.address = address := tiles.1
        have place :=
          CellMemory.extents_within _
            (run.extent_mem small List.mem_cons_self)
        simp only [Store.extent] at place
        omega
  · rintro rfl
    trivial

/-- The stores of a run leave no gap where it stays short. -/
theorem tiles_iff
    (run : SegmentRun acquire segments dest position stores final)
    (small : ∀ piece ∈ segments.flatten, piece ≤ 8)
    (positive : ∀ piece ∈ segments.flatten, 0 < piece) :
    CellMemory.Tiles dest (stores.map Store.run) ↔
      StaysShort acquire segments position := by
  induction run with
  | finished =>
      exact ⟨fun _ => .finished, fun _ => trivial⟩
  | next run inductionHypothesis =>
      rw [inductionHypothesis small positive, staysShort_next_iff]
  | @served piece rest later dest position _ stores value saved run
      inductionHypothesis =>
      obtain ⟨firstSmall, restSmall⟩ := List.forall_mem_cons.mp small
      obtain ⟨_, restPositive⟩ := List.forall_mem_cons.mp positive
      have length : ((wordBytes value).take piece).length = piece := by
        simp [firstSmall]
      rw [staysShort_served_iff saved,
        ← inductionHypothesis restSmall restPositive]
      simp only [List.map_cons, CellMemory.Tiles, Store.run,
        Store.cells_length, length, true_and]
  | @short piece rest later dest position _ stores missed run
      inductionHypothesis =>
      have firstPositive : 0 < piece := positive piece (by simp)
      have laterSmall :=
        (List.forall_mem_append.mp
          (show ∀ other ∈ (piece :: rest) ++ later.flatten, other ≤ 8
            from small)).2
      rw [staysShort_short_iff missed, ← run.stores_nil_iff]
      exact run.tiles_behind_iff laterSmall (by omega)

/-- Where every acquisition saves a value, no run comes short. -/
theorem staysShort
    (saves : ∀ current, ∃ value, (acquire current).value = some value)
    (run : SegmentRun acquire segments dest position stores final) :
    StaysShort acquire segments position := by
  induction run with
  | finished =>
      exact .finished
  | next run inductionHypothesis =>
      exact .next inductionHypothesis
  | served saved run inductionHypothesis =>
      exact .served saved inductionHypothesis
  | @short _ _ _ _ position _ _ missed run inductionHypothesis =>
      obtain ⟨value, saved⟩ := saves position
      rw [missed] at saved
      cases saved

/-- The stores of a run are in the order of their addresses. -/
theorem ordered
    (run : SegmentRun acquire segments dest position stores final)
    (small : ∀ piece ∈ segments.flatten, piece ≤ 8) :
    stores.Pairwise fun first second =>
      first.address + first.bytes.length ≤ second.address :=
  List.pairwise_map.mp
    ((CellMemory.extents_ordered dest segments.flatten).sublist
      (run.extents_sublist small))

end SegmentRun

/--
The prefix law of a fill that returns a number of bytes: so many bytes from
the front are fresh, and the bytes behind them are left alone.
-/
structure PrefixLaw
    (device : Device)
    (start size position : Nat)
    (fill : Fill) : Prop where
  fresh :
    ∀ memory index,
      index < fill.generated →
      (fill.applyTo memory (start + index)).FromDevice device position
  unchanged :
    ∀ memory index,
      fill.generated ≤ index →
      index < size →
      fill.applyTo memory (start + index) = memory (start + index)

section Prefix

variable
  {device : Device}
  {start position : Nat}
  {fill : Fill}

/-- A cell of the stack is not from the device. -/
theorem Cell.not_fromDevice_of_stack
    {cell : Cell}
    (fromStack : cell.origin = .stack) :
    ¬ cell.FromDevice device position := by
  rintro ⟨step, lane, _, _, _, rfl⟩
  cases fromStack

/-- Under the prefix law the front of the target has been stored. -/
theorem PrefixLaw.covers
    {size : Nat}
    (law : PrefixLaw device start size position fill)
    {index : Nat}
    (front : index < fill.generated) :
    fill.Covers (start + index) := by
  by_contra uncovered
  have kept :
      fill.applyTo (fun _ => ⟨0, .stack⟩) (start + index) =
        ⟨0, .stack⟩ := by
    rw [Fill.applyTo_eq_storeAll]
    apply CellMemory.storeAll_outside
    intro piece member
    obtain ⟨store, stored, rfl⟩ := List.mem_map.mp member
    rw [Store.cells_length]
    exact fun inside => uncovered ⟨store, stored, inside⟩
  have fresh := law.fresh (fun _ => ⟨0, .stack⟩) index front
  rw [kept] at fresh
  exact Cell.not_fromDevice_of_stack rfl fresh

/-- Bytes stored without a gap are a front of the target. -/
theorem prefixLaw_of_tiles
    (amount : fill.generated = fill.storedBytes)
    (fromDevice :
      ∀ store ∈ fill.stores,
        store.FromDevice device position fill.position)
    (tiles : CellMemory.Tiles start fill.runs)
    (size : Nat) :
    PrefixLaw device start size position fill := by
  have length :
      (CellMemory.contents fill.runs).length = fill.generated := by
    rw [Fill.contents_runs_length, amount]
  have applied :
      ∀ memory,
        fill.applyTo memory =
          CellMemory.store memory start
            (CellMemory.contents fill.runs) := by
    intro memory
    rw [Fill.applyTo_eq_storeAll]
    exact tiles.storeAll memory
  constructor
  · intro memory index front
    have inside :
        fill.applyTo memory (start + index) ∈
          CellMemory.contents fill.runs := by
      rw [applied]
      exact CellMemory.store_mem (Nat.le_add_right _ _) (by omega)
    obtain ⟨run, member, inRun⟩ := List.mem_flatMap.mp inside
    obtain ⟨store, inFill, rfl⟩ := List.mem_map.mp member
    exact (fromDevice store inFill).cell inRun
  · intro memory index behind _
    rw [applied]
    exact CellMemory.store_above (by omega)

/-- A run obeys the prefix law exactly where it stays short. -/
theorem SegmentRun.prefixLaw_iff
    {acquire : Nat → Acquisition}
    {segments : List (List Nat)}
    (run :
      SegmentRun acquire segments start position fill.stores
        fill.position)
    (amount : fill.generated = fill.storedBytes)
    (acquires : ∀ current, (acquire current).Sound device current)
    (small : ∀ piece ∈ segments.flatten, piece ≤ 8)
    (positive : ∀ piece ∈ segments.flatten, 0 < piece)
    (size : Nat) :
    PrefixLaw device start size position fill ↔
      StaysShort acquire segments position := by
  rw [← run.tiles_iff small positive]
  constructor
  · intro law
    apply CellMemory.tiles_of_covered
    · intro piece member
      obtain ⟨store, stored, rfl⟩ := List.mem_map.mp member
      exact
        (CellMemory.extents_within _ (run.extent_mem small stored)).1
    · apply List.pairwise_map.mpr
      simpa only [Store.run, Store.cells_length] using run.ordered small
    · intro piece member
      obtain ⟨store, stored, rfl⟩ := List.mem_map.mp member
      have length :=
        CellMemory.length_mem_of_mem_extents _
          (run.extent_mem small stored)
      simpa only [Store.run, Store.cells_length, Store.extent] using
        positive _ length
    · intro query atLeast below
      change query < start + (CellMemory.contents fill.runs).length
        at below
      rw [Fill.contents_runs_length, ← amount] at below
      obtain ⟨store, stored, covers⟩ :=
        law.covers (show query - start < fill.generated by omega)
      rw [Nat.add_sub_cancel' atLeast] at covers
      refine ⟨store.run, List.mem_map_of_mem stored, covers.1, ?_⟩
      simpa only [Store.run, Store.cells_length] using covers.2
  · intro tiles
    exact
      prefixLaw_of_tiles amount (run.fromDevice acquires small) tiles
        size

end Prefix

end RdRand
