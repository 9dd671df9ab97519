import RdRand.DeviceWords
import RdRand.SingleValues

namespace RdRand

/-!
# Serving pieces of memory

What the array functions are for: pieces of at most eight bytes, one after
another, get one acquired value each, until an acquisition comes short.  The
array functions are shown to serve the pieces they divide their array into;
what they store and where they stop then follows from the pieces.

Segments of pieces are served one after another.  A segment whose acquisition
comes short is given up, and the next one is served all the same.
-/

/-- Serve pieces of given sizes from an address on; `generated` counts them. -/
def serve (acquire : Nat → Acquisition) : List Nat → Nat → Nat → Fill
  | [], _, position =>
      Fill.nothing position
  | piece :: rest, dest, position =>
      match (acquire position).value with
      | none =>
          { generated := 0
            stores := []
            position := (acquire position).position }
      | some value =>
          let later :=
            serve acquire rest (dest + piece) (acquire position).position
          { generated := later.generated + 1
            stores :=
              { address := dest
                bytes := (wordBytes value).take piece
                origin := (acquire position).position - 1 } ::
                  later.stores
            position := later.position }

namespace Fill

/-- The runs of cells that a fill stores. -/
def runs (fill : Fill) : List (Nat × List Cell) :=
  fill.stores.map fun store => (store.address, store.cells)

/-- The number of bytes that a fill stores. -/
def storedBytes (fill : Fill) : Nat :=
  (fill.stores.map fun store => store.bytes.length).sum

theorem applyTo_eq_storeAll (fill : Fill) (memory : Nat → Cell) :
    fill.applyTo memory = CellMemory.storeAll memory fill.runs := by
  unfold applyTo runs CellMemory.storeAll
  rw [List.foldl_map]

@[simp] theorem contents_runs_length (fill : Fill) :
    (CellMemory.contents fill.runs).length = fill.storedBytes := by
  simp [CellMemory.contents, runs, storedBytes, List.length_flatMap,
    Function.comp_def]

end Fill

section Serve

variable {acquire : Nat → Acquisition}

@[simp] theorem serve_nil
    (dest position : Nat) :
    serve acquire [] dest position = Fill.nothing position :=
  rfl

/-- A piece whose acquisition comes short ends the service. -/
theorem serve_short
    {position : Nat}
    (short : (acquire position).value = none)
    (piece : Nat)
    (rest : List Nat)
    (dest : Nat) :
    serve acquire (piece :: rest) dest position =
      { generated := 0
        stores := []
        position := (acquire position).position } := by
  rw [serve]
  simp only [short]

/-- A piece that gets a value is stored, and the service goes on. -/
theorem serve_served
    {position : Nat}
    {value : Word}
    (saved : (acquire position).value = some value)
    (piece : Nat)
    (rest : List Nat)
    (dest : Nat) :
    serve acquire (piece :: rest) dest position =
      { generated :=
          (serve acquire rest (dest + piece)
            (acquire position).position).generated + 1
        stores :=
          { address := dest
            bytes := (wordBytes value).take piece
            origin := (acquire position).position - 1 } ::
              (serve acquire rest (dest + piece)
                (acquire position).position).stores
        position :=
          (serve acquire rest (dest + piece)
            (acquire position).position).position } := by
  rw [serve]
  simp only [saved]

theorem serve_generated_le
    (pieces : List Nat)
    (dest position : Nat) :
    (serve acquire pieces dest position).generated ≤ pieces.length := by
  induction pieces generalizing dest position with
  | nil =>
      exact Nat.le_refl 0
  | cons piece rest inductionHypothesis =>
      cases saved : (acquire position).value with
      | none =>
          rw [serve_short saved]
          exact Nat.zero_le _
      | some value =>
          rw [serve_served saved]
          exact Nat.succ_le_succ (inductionHypothesis _ _)

/-- The pieces are stored in full, as many as were served. -/
theorem serve_lengths
    {pieces : List Nat}
    (small : ∀ piece ∈ pieces, piece ≤ 8)
    (dest position : Nat) :
    (serve acquire pieces dest position).stores.map
        (fun store => store.bytes.length) =
      pieces.take (serve acquire pieces dest position).generated := by
  induction pieces generalizing dest position with
  | nil =>
      rfl
  | cons piece rest inductionHypothesis =>
      obtain ⟨firstSmall, restSmall⟩ := List.forall_mem_cons.mp small
      cases saved : (acquire position).value with
      | none =>
          rw [serve_short saved]
          rfl
      | some value =>
          rw [serve_served saved]
          simp only [List.map_cons, List.take_succ_cons,
            inductionHypothesis restSmall, List.length_take,
            wordBytes_length, Nat.min_eq_left firstSmall]

/-- No more pieces are stored than there are. -/
theorem serve_stores_length_le
    {pieces : List Nat}
    (small : ∀ piece ∈ pieces, piece ≤ 8)
    (dest position : Nat) :
    (serve acquire pieces dest position).stores.length ≤
      pieces.length := by
  have lengths :
      ((serve acquire pieces dest position).stores.map
          fun store => store.bytes.length).length ≤ pieces.length := by
    rw [serve_lengths small, List.length_take]
    exact Nat.min_le_right _ _
  rwa [List.length_map] at lengths

theorem serve_storedBytes
    {pieces : List Nat}
    (small : ∀ piece ∈ pieces, piece ≤ 8)
    (dest position : Nat) :
    (serve acquire pieces dest position).storedBytes =
      (pieces.take
        (serve acquire pieces dest position).generated).sum := by
  rw [Fill.storedBytes, serve_lengths small]

/-- The served pieces lie next to each other. -/
theorem serve_tiles
    {pieces : List Nat}
    (small : ∀ piece ∈ pieces, piece ≤ 8)
    (dest position : Nat) :
    CellMemory.Tiles dest (serve acquire pieces dest position).runs := by
  induction pieces generalizing dest position with
  | nil =>
      trivial
  | cons piece rest inductionHypothesis =>
      obtain ⟨firstSmall, restSmall⟩ := List.forall_mem_cons.mp small
      cases saved : (acquire position).value with
      | none =>
          rw [serve_short saved]
          trivial
      | some value =>
          rw [serve_served saved]
          refine ⟨rfl, ?_⟩
          have length :
              ((wordBytes value).take piece).length = piece := by
            simp [firstSmall]
          simp only [Store.cells_length, length]
          exact inductionHypothesis restSmall _ _

/-- What the service leaves in memory is one run from its start on. -/
theorem serve_applyTo
    {pieces : List Nat}
    (small : ∀ piece ∈ pieces, piece ≤ 8)
    (dest position : Nat)
    (memory : Nat → Cell) :
    (serve acquire pieces dest position).applyTo memory =
      CellMemory.store memory dest
        (CellMemory.contents
          (serve acquire pieces dest position).runs) := by
  rw [Fill.applyTo_eq_storeAll,
    (serve_tiles small dest position).storeAll]

/-- A service covers the addresses up to the bytes it has stored. -/
theorem serve_covers_iff
    {pieces : List Nat}
    (small : ∀ piece ∈ pieces, piece ≤ 8)
    {dest position address : Nat} :
    (serve acquire pieces dest position).Covers address ↔
      dest ≤ address ∧
        address <
          dest + (serve acquire pieces dest position).storedBytes := by
  induction pieces generalizing dest position with
  | nil =>
      simp [Fill.Covers, Fill.nothing, Fill.storedBytes]
  | cons piece rest inductionHypothesis =>
      obtain ⟨firstSmall, restSmall⟩ := List.forall_mem_cons.mp small
      cases saved : (acquire position).value with
      | none =>
          rw [serve_short saved]
          simp [Fill.Covers, Fill.storedBytes]
      | some value =>
          have later :
              (serve acquire rest (dest + piece)
                (acquire position).position).Covers address ↔ _ :=
            inductionHypothesis restSmall
          rw [serve_served saved]
          simp only [Fill.Covers, Fill.storedBytes] at later
          simp only [Fill.Covers, Fill.storedBytes, List.map_cons,
            List.sum_cons, List.mem_cons, or_and_right, exists_or,
            exists_eq_left, later]
          simp only [Store.Covers, List.length_take, wordBytes_length,
            Nat.min_eq_left firstSmall]
          omega

/-- Where every acquisition saves a value, every piece is served. -/
theorem serve_complete
    (saves : ∀ position, ∃ value, (acquire position).value = some value)
    (pieces : List Nat)
    (dest position : Nat) :
    (serve acquire pieces dest position).generated =
      pieces.length := by
  induction pieces generalizing dest position with
  | nil =>
      rfl
  | cons piece rest inductionHypothesis =>
      obtain ⟨value, saved⟩ := saves position
      rw [serve_served saved]
      simp [inductionHypothesis]

end Serve

/--
Serving some segments from an address and a step on: what is stored, and the
position after it.
-/
inductive SegmentRun
    (acquire : Nat → Acquisition) :
    List (List Nat) → Nat → Nat → List Store → Nat → Prop where
  | finished
      {dest position : Nat} :
      SegmentRun acquire [] dest position [] position
  | next
      {later : List (List Nat)}
      {dest position final : Nat}
      {stores : List Store}
      (run : SegmentRun acquire later dest position stores final) :
      SegmentRun acquire ([] :: later) dest position stores final
  | served
      {piece : Nat}
      {rest : List Nat}
      {later : List (List Nat)}
      {dest position final : Nat}
      {stores : List Store}
      {value : Word}
      (saved : (acquire position).value = some value)
      (run :
        SegmentRun acquire (rest :: later) (dest + piece)
          (acquire position).position stores final) :
      SegmentRun acquire ((piece :: rest) :: later) dest position
        ({ address := dest
           bytes := (wordBytes value).take piece
           origin := (acquire position).position - 1 } :: stores)
        final
  | short
      {piece : Nat}
      {rest : List Nat}
      {later : List (List Nat)}
      {dest position final : Nat}
      {stores : List Store}
      (missed : (acquire position).value = none)
      (run :
        SegmentRun acquire later (dest + (piece + rest.sum))
          (acquire position).position stores final) :
      SegmentRun acquire ((piece :: rest) :: later) dest position
        stores final

namespace SegmentRun

variable
  {acquire : Nat → Acquisition}
  {segments : List (List Nat)}
  {dest position final : Nat}
  {stores : List Store}

/-- A service of one segment and then the run of the others. -/
theorem segment
    {pieces : List Nat}
    {later : List (List Nat)}
    (run :
      SegmentRun acquire later (dest + pieces.sum)
        (serve acquire pieces dest position).position stores final) :
    SegmentRun acquire (pieces :: later) dest position
      ((serve acquire pieces dest position).stores ++ stores)
      final := by
  induction pieces generalizing dest position with
  | nil =>
      exact .next run
  | cons piece rest inductionHypothesis =>
      cases saved : (acquire position).value with
      | none =>
          rw [serve_short saved] at run ⊢
          exact .short saved run
      | some value =>
          rw [serve_served saved] at run ⊢
          rw [List.sum_cons, ← Nat.add_assoc] at run
          exact .served saved (inductionHypothesis run)

/-- A run moves the device forward. -/
theorem advances
    {device : Device}
    (acquires : ∀ current, (acquire current).Sound device current)
    (run : SegmentRun acquire segments dest position stores final) :
    position ≤ final := by
  induction run with
  | finished =>
      exact Nat.le_refl _
  | next run inductionHypothesis =>
      exact inductionHypothesis
  | @served _ _ _ _ position _ _ _ saved run inductionHypothesis =>
      have step := (acquires position).advances
      omega
  | @short _ _ _ _ position _ _ missed run inductionHypothesis =>
      have step := (acquires position).advances
      omega

/-- Every store of a run holds bytes of a step that it has taken. -/
theorem fromDevice
    {device : Device}
    (acquires : ∀ current, (acquire current).Sound device current)
    (run : SegmentRun acquire segments dest position stores final)
    (small : ∀ piece ∈ segments.flatten, piece ≤ 8) :
    ∀ store ∈ stores, store.FromDevice device position final := by
  induction run with
  | finished =>
      intro store member
      cases member
  | next run inductionHypothesis =>
      exact inductionHypothesis small
  | @served _ _ _ _ position _ _ _ saved run inductionHypothesis =>
      obtain ⟨firstSmall, restSmall⟩ := List.forall_mem_cons.mp small
      have sound := acquires position
      have step := sound.advances
      have later := run.advances acquires
      obtain ⟨delivers, sameValue⟩ := sound.fromDevice saved
      intro store member
      rcases List.mem_cons.mp member with rfl | inRest
      · refine ⟨?_, ?_, delivers, ?_⟩
        · simp only
          omega
        · simp only
          omega
        · simp [sameValue, firstSmall]
      · exact
          (inductionHypothesis restSmall store inRest).widen
            (Nat.le_of_lt step) (Nat.le_refl _)
  | @short piece rest _ _ position _ _ missed run
      inductionHypothesis =>
      have step := (acquires position).advances
      have laterSmall :=
        (List.forall_mem_append.mp
          (show ∀ other ∈ (piece :: rest) ++ _, other ≤ 8 from
            small)).2
      intro store member
      exact
        (inductionHypothesis laterSmall store member).widen
          (Nat.le_of_lt step) (Nat.le_refl _)

/-- A run takes the values that it stores from later and later steps. -/
theorem origins_increase
    {device : Device}
    (acquires : ∀ current, (acquire current).Sound device current)
    (run : SegmentRun acquire segments dest position stores final)
    (small : ∀ piece ∈ segments.flatten, piece ≤ 8) :
    (stores.map Store.origin).Pairwise (· < ·) := by
  induction run with
  | finished =>
      exact .nil
  | next run inductionHypothesis =>
      exact inductionHypothesis small
  | @served _ _ _ _ position _ _ _ saved run inductionHypothesis =>
      obtain ⟨_, restSmall⟩ := List.forall_mem_cons.mp small
      have step := (acquires position).advances
      refine
        List.pairwise_cons.mpr ⟨?_, inductionHypothesis restSmall⟩
      intro origin member
      obtain ⟨store, inRest, rfl⟩ := List.mem_map.mp member
      have taken :=
        (run.fromDevice acquires restSmall store inRest).notBefore
      simp only
      omega
  | @short piece rest _ _ _ _ _ missed run inductionHypothesis =>
      exact
        inductionHypothesis
          (List.forall_mem_append.mp
            (show ∀ other ∈ (piece :: rest) ++ _, other ≤ 8 from
              small)).2

end SegmentRun

/-- A service is the run of one segment. -/
theorem serve_run
    (acquire : Nat → Acquisition)
    (pieces : List Nat)
    (dest position : Nat) :
    SegmentRun acquire [pieces] dest position
      (serve acquire pieces dest position).stores
      (serve acquire pieces dest position).position := by
  have run :
      SegmentRun acquire [pieces] dest position
        ((serve acquire pieces dest position).stores ++ [])
        (serve acquire pieces dest position).position :=
    SegmentRun.segment .finished
  rwa [List.append_nil] at run

section Sound

variable
  {device : Device}
  {acquire : Nat → Acquisition}

/-- The steps taken by a service are behind its end. -/
theorem serve_advances
    (acquires : ∀ position, (acquire position).Sound device position)
    (pieces : List Nat)
    (dest position : Nat) :
    position ≤ (serve acquire pieces dest position).position :=
  (serve_run acquire pieces dest position).advances acquires

/-- Every store of a service holds bytes of a step it has taken. -/
theorem serve_fromDevice
    (acquires : ∀ position, (acquire position).Sound device position)
    {pieces : List Nat}
    (small : ∀ piece ∈ pieces, piece ≤ 8)
    (dest position : Nat) :
    ∀ store ∈ (serve acquire pieces dest position).stores,
      store.FromDevice device position
        (serve acquire pieces dest position).position :=
  (serve_run acquire pieces dest position).fromDevice acquires
    (by rwa [List.flatten_singleton])

/-- The pieces get values of later and later steps. -/
theorem serve_origins_increase
    (acquires : ∀ position, (acquire position).Sound device position)
    {pieces : List Nat}
    (small : ∀ piece ∈ pieces, piece ≤ 8)
    (dest position : Nat) :
    ((serve acquire pieces dest position).stores.map
      Store.origin).Pairwise (· < ·) :=
  (serve_run acquire pieces dest position).origins_increase acquires
    (by rwa [List.flatten_singleton])

/-- The leading bytes of the value that a step delivered. -/
def stepCells (device : Device) (piece position : Nat) : List Cell :=
  (List.range piece).map (Cell.ofStep device position)

/-- The pieces that some steps serve, one step for each. -/
def piecesFrom
    (device : Device)
    (pieces positions : List Nat) : List Cell :=
  (List.zipWith (stepCells device) pieces positions).flatten

/-- The cells of a piece are the leading bytes of its value. -/
theorem cells_eq_stepCells
    {device : Device}
    {piece position : Nat}
    (small : piece ≤ 8)
    (address : Nat) :
    (Store.mk address
        ((wordBytes (device position).value).take piece)
        position).cells =
      stepCells device piece position := by
  apply List.ext_getElem
  · simp [stepCells, small]
  · intro lane inCells inStep
    have lanes : lane < piece := by
      simpa [stepCells] using inStep
    simp [Store.cells, stepCells, Cell.ofStep,
      List.getElem?_eq_getElem
        (show lane < (wordBytes (device position).value).length by
          rw [wordBytes_length]; omega)]

/-- What a service stores is given by the steps that it took values from. -/
theorem serve_contents
    (acquires : ∀ position, (acquire position).Sound device position)
    {pieces : List Nat}
    (small : ∀ piece ∈ pieces, piece ≤ 8)
    (dest position : Nat) :
    CellMemory.contents (serve acquire pieces dest position).runs =
      piecesFrom device pieces
        ((serve acquire pieces dest position).stores.map
          Store.origin) := by
  induction pieces generalizing dest position with
  | nil =>
      rfl
  | cons piece rest inductionHypothesis =>
      obtain ⟨firstSmall, restSmall⟩ := List.forall_mem_cons.mp small
      cases saved : (acquire position).value with
      | none =>
          rw [serve_short saved]
          rfl
      | some value =>
          obtain ⟨_, sameValue⟩ := (acquires position).fromDevice saved
          subst sameValue
          have later :=
            inductionHypothesis restSmall (dest + piece)
              (acquire position).position
          rw [serve_served saved]
          simp only [Fill.runs, List.map_cons,
            CellMemory.contents_cons, cells_eq_stepCells firstSmall,
            piecesFrom, List.zipWith_cons_cons, List.flatten_cons]
          exact congrArg _ later

/-- What a service stores comes from steps of its own, in their order. -/
theorem serve_steps
    (acquires : ∀ position, (acquire position).Sound device position)
    {pieces : List Nat}
    (small : ∀ piece ∈ pieces, piece ≤ 8)
    (dest position : Nat) :
    ∃ steps : List Nat,
      steps.Pairwise (· < ·) ∧
        (∀ step ∈ steps, position ≤ step ∧ device.Delivers step) ∧
        steps.length ≤ pieces.length ∧
        CellMemory.contents (serve acquire pieces dest position).runs =
          piecesFrom device pieces steps := by
  refine
    ⟨(serve acquire pieces dest position).stores.map Store.origin,
      serve_origins_increase acquires small dest position, ?_, ?_,
      serve_contents acquires small dest position⟩
  · intro step member
    obtain ⟨store, stored, rfl⟩ := List.mem_map.mp member
    have taken :=
      serve_fromDevice acquires small dest position store stored
    exact ⟨taken.notBefore, taken.delivered⟩
  · rw [List.length_map]
    exact serve_stores_length_le small dest position

end Sound

instance (device : Device) (position : Nat) :
    Decidable (device.Delivers position) :=
  inferInstanceAs (Decidable (_ = _))

/-- The steps between two positions that delivered, in order. -/
def Device.deliveries
    (device : Device)
    (start finish : Nat) : List Nat :=
  (List.range' start (finish - start)).filter
    fun position => device.Delivers position

/--
An acquisition takes the steps that the retry law allows: those before the
first delivery among the tries and that one, or all the tries.
-/
inductive AcquisitionLaw
    (device : Device)
    (tries position : Nat) : Acquisition → Prop where
  | delivered
      {waited : Nat}
      (within : waited < tries)
      (failed : device.FailedRun position waited)
      (delivers : device.Delivers (position + waited)) :
      AcquisitionLaw device tries position
        { rc := rdrandSuccess
          value := some (device (position + waited)).value
          position := position + waited + 1 }
  | exhausted
      {rc : Int}
      (code : rc ≠ rdrandSuccess)
      (failed : device.FailedRun position tries) :
      AcquisitionLaw device tries position
        { rc := rc, value := none, position := position + tries }

section Documented

variable {device : Device}

/-- On documented steps the loop of the array functions obeys the law. -/
theorem acquireInline_law
    (documented : device.Documented)
    (retryLimit : Int)
    (position : Nat) :
    AcquisitionLaw device (maxTries retryLimit) position
      (acquireInline device (effectiveLimit retryLimit) position) := by
  have tries := furtherTries_effectiveLimit retryLimit
  unfold acquireInline
  rw [retryStep_eq_retryWhile]
  rcases retryWhile_cases documented (by decide)
      (furtherTries (effectiveLimit retryLimit)) position with
    ⟨waited, within, failed, delivers, run⟩ | ⟨failed, run⟩
  · have success : (device (position + waited)).rc = rdrandSuccess :=
      delivers
    change
      retryWhile rdrandFailure device
        (furtherTries (effectiveLimit retryLimit)) position = _ at run
    simp only [run, success, if_true]
    exact .delivered (by omega) failed delivers
  · have short :
        ¬ (device
          (position +
            furtherTries (effectiveLimit retryLimit))).rc =
              rdrandSuccess :=
      failed _ (Nat.lt_succ_self _)
    change
      retryWhile rdrandFailure device
        (furtherTries (effectiveLimit retryLimit)) position = _ at run
    simp only [run, if_neg short]
    rw [Nat.add_assoc, tries]
    rw [tries] at failed
    exact .exhausted short failed

end Documented

namespace Device

variable {device : Device}

theorem mem_deliveries
    {start finish position : Nat} :
    position ∈ device.deliveries start finish ↔
      start ≤ position ∧ position < finish ∧
        device.Delivers position := by
  simp only [deliveries, List.mem_filter, List.mem_range'_1,
    decide_eq_true_eq]
  constructor
  · rintro ⟨⟨notBefore, before⟩, delivers⟩
    exact ⟨notBefore, by omega, delivers⟩
  · rintro ⟨notBefore, before, delivers⟩
    exact ⟨⟨notBefore, by omega⟩, delivers⟩

/-- Deliveries of consecutive intervals follow each other. -/
theorem deliveries_append
    {start middle finish : Nat}
    (first : start ≤ middle)
    (second : middle ≤ finish) :
    device.deliveries start finish =
      device.deliveries start middle ++
        device.deliveries middle finish := by
  have parts :
      List.range' start (finish - start) =
        List.range' start (middle - start) ++
          List.range' middle (finish - middle) := by
    have joined :
        List.range' start (middle - start) ++
            List.range' (start + (middle - start)) (finish - middle) =
          List.range' start (middle - start + (finish - middle)) :=
      List.range'_append_1
    rw [Nat.add_sub_cancel' first,
      show middle - start + (finish - middle) = finish - start by omega]
      at joined
    exact joined.symm
  simp only [deliveries, parts, List.filter_append]

/-- A run of failed steps delivers nothing. -/
theorem FailedRun.deliveries
    {position length : Nat}
    (failed : device.FailedRun position length) :
    device.deliveries position (position + length) = [] := by
  apply List.eq_nil_iff_forall_not_mem.mpr
  intro step member
  obtain ⟨notBefore, before, delivers⟩ := mem_deliveries.mp member
  apply failed (step - position) (by omega)
  rwa [Nat.add_sub_cancel' notBefore]

/-- The first delivery after some failed steps. -/
theorem FailedRun.deliveries_succ
    {position waited : Nat}
    (failed : device.FailedRun position waited)
    (delivers : device.Delivers (position + waited)) :
    device.deliveries position (position + waited + 1) =
      [position + waited] := by
  rw [deliveries_append (Nat.le_add_right position waited)
      (Nat.le_succ _),
    failed.deliveries]
  simp [Device.deliveries, delivers]

end Device

section Lawful

variable
  {device : Device}
  {tries : Nat}
  {acquire : Nat → Acquisition}
  (lawful :
    ∀ position, AcquisitionLaw device tries position (acquire position))

include lawful

/-- A service takes the values of all steps that deliver, in order. -/
theorem serve_deliveries
    (acquires : ∀ position, (acquire position).Sound device position)
    (pieces : List Nat)
    (dest position : Nat) :
    (serve acquire pieces dest position).stores.map Store.origin =
      device.deliveries position
        (serve acquire pieces dest position).position := by
  induction pieces generalizing dest position with
  | nil =>
      simp [Fill.nothing, Device.deliveries]
  | cons piece rest inductionHypothesis =>
      have law := lawful position
      generalize shape : acquire position = acquired at law
      cases law with
      | delivered within failed delivers =>
          rename_i waited
          have saved :
              (acquire position).value =
                some (device (position + waited)).value := by
            rw [shape]
          have later :=
            serve_advances acquires rest (dest + piece)
              (acquire position).position
          rw [serve_served saved]
          simp only [List.map_cons, inductionHypothesis]
          simp only [shape] at later ⊢
          rw [Device.deliveries_append
              (show position ≤ position + waited + 1 by omega) later,
            failed.deliveries_succ delivers]
          rfl
      | exhausted code failed =>
          have short : (acquire position).value = none := by
            rw [shape]
          rw [serve_short short]
          simp only [shape]
          rw [failed.deliveries]
          rfl

/-- So many failed steps in a row end a service, with pieces left over. -/
theorem serve_stops
    (positive : 0 < tries)
    (pieces : List Nat)
    {dest position failedFrom : Nat}
    (notBefore : position ≤ failedFrom)
    (before :
      failedFrom + tries ≤
        (serve acquire pieces dest position).position)
    (run : device.FailedRun failedFrom tries) :
    failedFrom + tries =
        (serve acquire pieces dest position).position ∧
      (serve acquire pieces dest position).generated <
        pieces.length := by
  induction pieces generalizing dest position with
  | nil =>
      simp only [serve_nil, Fill.nothing] at before
      omega
  | cons piece rest inductionHypothesis =>
      have law := lawful position
      generalize shape : acquire position = acquired at law
      cases law with
      | delivered within failed delivers =>
          rename_i waited
          have saved :
              (acquire position).value =
                some (device (position + waited)).value := by
            rw [shape]
          rw [serve_served saved] at before ⊢
          have behind : position + waited < failedFrom := by
            by_contra reached
            apply run (position + waited - failedFrom) (by omega)
            rwa [Nat.add_sub_cancel' (Nat.not_lt.mp reached)]
          have later :=
            inductionHypothesis
              (show (acquire position).position ≤ failedFrom by
                rw [shape]
                exact behind)
              before
          exact ⟨later.1, Nat.succ_lt_succ later.2⟩
      | exhausted code failed =>
          have short : (acquire position).value = none := by
            rw [shape]
          rw [serve_short short] at before ⊢
          simp only [shape] at before ⊢
          exact ⟨by omega, Nat.succ_pos _⟩

/-- A service that leaves pieces over ends with so many failed steps. -/
theorem serve_incomplete
    (acquires : ∀ position, (acquire position).Sound device position)
    {pieces : List Nat}
    {dest position : Nat}
    (incomplete :
      (serve acquire pieces dest position).generated <
        pieces.length) :
    ∃ failedFrom,
      position ≤ failedFrom ∧
        failedFrom + tries =
          (serve acquire pieces dest position).position ∧
        device.FailedRun failedFrom tries := by
  induction pieces generalizing dest position with
  | nil =>
      exact absurd incomplete (Nat.not_lt_zero _)
  | cons piece rest inductionHypothesis =>
      have law := lawful position
      have advances := (acquires position).advances
      generalize shape : acquire position = acquired at law
      cases law with
      | delivered within failed delivers =>
          rename_i waited
          have saved :
              (acquire position).value =
                some (device (position + waited)).value := by
            rw [shape]
          rw [serve_served saved] at incomplete ⊢
          obtain ⟨failedFrom, notBefore, ends, run⟩ :=
            inductionHypothesis (Nat.lt_of_succ_lt_succ incomplete)
          exact ⟨failedFrom, by omega, ends, run⟩
      | exhausted code failed =>
          have short : (acquire position).value = none := by
            rw [shape]
          rw [serve_short short]
          simp only [shape]
          exact ⟨position, Nat.le_refl _, rfl, failed⟩

end Lawful

end RdRand
