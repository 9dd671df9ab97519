import RdRand.Generator

namespace RdRand

/-!
# Whole words from the device

The slices that `generate_chunk` fills start on a word and hold whole words.
On such targets every fill function stores aligned words only, so a word of a
slice is always the value of one step.
-/

/-- Byte `index` of the value that a step delivered. -/
def Cell.ofStep (device : Device) (position index : Nat) : Cell where
  value := (wordBytes (device position).value).getD index 0
  origin := .step position

/-- Word `index` of an array is the value of a successful step since `since`. -/
def WordFrom
    (device : Device)
    (since : Nat)
    (contents : Nat → Cell)
    (index : Nat) : Prop :=
  ∃ position,
    since ≤ position ∧
      device.Delivers position ∧
      ∀ lane,
        lane < 8 →
        contents (8 * index + lane) = Cell.ofStep device position lane

/-- A word from the device since some step is one since any earlier step. -/
theorem WordFrom.since
    {device : Device}
    {since earlier : Nat}
    {contents : Nat → Cell}
    {index : Nat}
    (word : WordFrom device since contents index)
    (le : earlier ≤ since) :
    WordFrom device earlier contents index := by
  obtain ⟨position, notBefore, delivers, lanes⟩ := word
  exact ⟨position, Nat.le_trans le notBefore, delivers, lanes⟩

/-- A word depends on its eight cells only. -/
theorem WordFrom.congr
    {device : Device}
    {since : Nat}
    {first second : Nat → Cell}
    {index : Nat}
    (word : WordFrom device since first index)
    (same :
      ∀ lane,
        lane < 8 →
        second (8 * index + lane) = first (8 * index + lane)) :
    WordFrom device since second index := by
  obtain ⟨position, notBefore, delivers, lanes⟩ := word
  refine ⟨position, notBefore, delivers, ?_⟩
  intro lane small
  rw [same lane small, lanes lane small]

/-- A store of one whole word at an aligned address. -/
structure Store.WholeWord (store : Store) : Prop where
  aligned : store.address % 8 = 0
  length : store.bytes.length = 8

namespace Fill

/-- Every store of the fill is a whole aligned word. -/
def Aligned (fill : Fill) : Prop :=
  ∀ store ∈ fill.stores, store.WholeWord

theorem nothing_aligned (position : Nat) :
    (nothing position).Aligned := by
  intro store member
  cases member

theorem Aligned.andThen
    {first second : Fill}
    (firstAligned : first.Aligned)
    (secondAligned : second.Aligned) :
    (first.andThen second).Aligned := by
  intro store member
  rcases List.mem_append.mp member with inFirst | inSecond
  · exact firstAligned store inFirst
  · exact secondAligned store inSecond

theorem unlessZero_aligned
    {count position : Nat}
    {fill : Fill}
    (aligned : count ≠ 0 → fill.Aligned) :
    (unlessZero count fill position).Aligned := by
  unfold unlessZero
  split
  · next made =>
      exact aligned made
  · exact nothing_aligned position

end Fill

/-- The array loop stores whole words from an aligned address on. -/
theorem fillWords_aligned
    (acquire : Nat → Acquisition)
    (count : Nat)
    {dest : Nat}
    (aligned : dest % 8 = 0)
    (position : Nat) :
    (fillWords acquire count dest position).Aligned := by
  induction count generalizing dest position with
  | zero =>
      exact Fill.nothing_aligned position
  | succ count inductionHypothesis =>
      unfold fillWords
      simp only
      split
      · intro store member
        rcases List.mem_cons.mp member with isFirst | inRest
        · subst store
          exact ⟨aligned, wordBytes_length _⟩
        · exact inductionHypothesis (by omega) _ store inRest
      · intro store member
        cases member

/-- On whole aligned words `rdrand_get_bytes_retry` stores words only. -/
theorem rdrandGetBytesRetry_aligned
    (device : Device)
    {start size : Nat}
    (startAligned : start % 8 = 0)
    (sizeAligned : size % 8 = 0)
    (fits : size < uintModulus)
    (retryLimit : Int)
    (position : Nat) :
    (rdrandGetBytesRetry device start size retryLimit position).Aligned := by
  obtain ⟨offsetSmall, alignedStart, parts⟩ := layoutOf_parts start fits
  have offsetWhole :
      (layoutOf start size).offset = 0 ∨
        (layoutOf start size).offset = 8 := by
    unfold layoutOf
    split
    · exact .inl rfl
    · simp [startAligned]
  unfold rdrandGetBytesRetry
  simp only
  generalize layoutOf start size = layout at *
  have noRest : layout.alignedBytes % 8 = 0 := by
    omega
  apply Fill.Aligned.andThen
  · apply Fill.Aligned.andThen
    · apply Fill.unlessZero_aligned
      intro someHead
      have whole : layout.offset = 8 := by
        omega
      simp only [whole, rdrandGetUint8ArrayRetry]
      exact fillWords_aligned _ 1 startAligned position
    · apply Fill.unlessZero_aligned
      intro _
      exact fillWords_aligned _ _ (by omega) _
  · apply Fill.unlessZero_aligned
    intro someRest
    exact absurd noRest someRest

/-- `generate_with_metod` is sound for every size an `unsigned int` holds. -/
theorem generateWithMetod_sound
    (device : Device)
    (config : Cnf)
    (buf : Nat)
    {blocks : Nat}
    (fits : blocks < uintModulus)
    (retry : Int)
    (position : Nat) :
    (generateWithMetod device config buf blocks retry position).Sound
      device position buf 1 blocks := by
  have words : 8 * (blocks / 8) ≤ blocks := Nat.mul_div_le blocks 8
  have wordsFit : 8 * (blocks / 8) < uintModulus :=
    Nat.lt_of_le_of_lt words fits
  unfold generateWithMetod
  split
  · exact rdrandGetBytesRetry_sound device buf fits retry position
  · exact
      ((rdrandGetUint64ArrayReseedDelay_sound device buf (blocks / 8)
        retry position).inBytes wordsFit).enlarge words
  · exact
      ((rdrandGetUint64ArrayReseedSkip_sound device buf (blocks / 8)
        retry position).inBytes wordsFit).enlarge words
  · exact (Fill.nothing_sound device position buf 1).enlarge
      (Nat.zero_le blocks)

/--
Without failures `generate_with_metod` fills its target, rounded down to whole
words by the two methods that reseed.
-/
theorem generateWithMetod_generated
    {device : Device}
    (neverFails : device.NeverFails)
    {config : Cnf}
    (realMethod : config.method ≠ .methodsCount)
    (buf : Nat)
    {blocks : Nat}
    (fits : blocks < uintModulus)
    (retry : Int)
    (position : Nat) :
    (generateWithMetod device config buf blocks retry position).generated =
      if config.method = .getBytes then
        blocks
      else
        8 * (blocks / 8) := by
  have words : 8 * (blocks / 8) ≤ blocks := Nat.mul_div_le blocks 8
  have wordsFit : 8 * (blocks / 8) % uintModulus = 8 * (blocks / 8) :=
    Nat.mod_eq_of_lt (Nat.lt_of_le_of_lt words fits)
  unfold generateWithMetod
  cases method : config.method with
  | getBytes =>
      simpa using
        rdrandGetBytesRetry_generated neverFails buf fits retry position
  | getReseed64Delay =>
      simp only [Fill.inBytes, reduceCtorEq, if_false,
        rdrandGetUint64ArrayReseedDelay_generated neverFails, wordsFit]
  | getReseed64Skip =>
      simp only [Fill.inBytes, reduceCtorEq, if_false,
        rdrandGetUint64ArrayReseedSkip_generated neverFails, wordsFit]
  | methodsCount =>
      exact absurd method realMethod

/-- On whole aligned words `generate_with_metod` stores words only. -/
theorem generateWithMetod_aligned
    (device : Device)
    (config : Cnf)
    {buf blocks : Nat}
    (bufAligned : buf % 8 = 0)
    (sizeAligned : blocks % 8 = 0)
    (fits : blocks < uintModulus)
    (retry : Int)
    (position : Nat) :
    (generateWithMetod device config buf blocks retry position).Aligned := by
  unfold generateWithMetod
  split
  · exact rdrandGetBytesRetry_aligned device bufAligned sizeAligned fits
      retry position
  · exact fillWords_aligned _ _ bufAligned position
  · exact fillWords_aligned _ _ bufAligned position
  · exact Fill.nothing_aligned position

/-- The cells of a store are those of the step it comes from. -/
theorem Store.cells_ofStep
    {device : Device}
    {start finish : Nat}
    {store : Store}
    (fromDevice : store.FromDevice device start finish)
    {lane : Nat}
    (small : lane < store.cells.length) :
    store.cells[lane] = Cell.ofStep device store.origin lane := by
  have contents := fromDevice.contents
  have inBytes : lane < store.bytes.length := by
    simpa using small
  have byte :
      store.bytes[lane] =
        (wordBytes (device store.origin).value).getD lane 0 := by
    have taken :
        store.bytes[lane]? =
          (wordBytes (device store.origin).value)[lane]? := by
      rw [contents, List.getElem?_take_of_lt inBytes]
    rw [List.getD_eq_getElem?_getD, ← taken,
      List.getElem?_eq_getElem inBytes, Option.getD_some]
  simp only [Store.cells, List.getElem_map, Cell.ofStep, byte]

/-- A whole-word store replaces one word and leaves every other alone. -/
theorem WordFrom.store
    {device : Device}
    {since start finish : Nat}
    {contents : Nat → Cell}
    {index : Nat}
    {store : Store}
    (whole : store.WholeWord)
    (fromDevice : store.FromDevice device start finish)
    (le : since ≤ start)
    (word :
      store.address = 8 * index ∨
        WordFrom device since contents index) :
    WordFrom device since
      (CellMemory.store contents store.address store.cells) index := by
  have length : store.cells.length = 8 := by
    simp [whole.length]
  by_cases here : store.address = 8 * index
  · refine ⟨store.origin, Nat.le_trans le fromDevice.notBefore,
      fromDevice.delivered, ?_⟩
    intro lane small
    rw [here, CellMemory.store_inside (by omega) (by omega)]
    rw [Store.cells_ofStep fromDevice]
    congr 1
    omega
  · have old := word.resolve_left here
    have aligned := whole.aligned
    apply old.congr
    intro lane small
    by_cases below : 8 * index + lane < store.address
    · exact CellMemory.store_below below
    · exact CellMemory.store_above (by omega)

/-- Words survive a fill of whole words, and stored words appear. -/
theorem WordFrom.applyStores
    {device : Device}
    {since start finish : Nat}
    (le : since ≤ start)
    {stores : List Store}
    (whole : ∀ store ∈ stores, store.WholeWord)
    (fromDevice :
      ∀ store ∈ stores, store.FromDevice device start finish)
    {contents : Nat → Cell}
    {index : Nat}
    (word :
      (∃ store ∈ stores, store.address = 8 * index) ∨
        WordFrom device since contents index) :
    WordFrom device since
      (stores.foldl
        (fun current store =>
          CellMemory.store current store.address store.cells)
        contents)
      index := by
  induction stores generalizing contents with
  | nil =>
      rcases word with ⟨store, member, _⟩ | word
      · cases member
      · exact word
  | cons store rest inductionHypothesis =>
      have firstWhole := whole store List.mem_cons_self
      have firstFrom := fromDevice store List.mem_cons_self
      apply inductionHypothesis
      · intro later member
        exact whole later (List.mem_cons_of_mem store member)
      · intro later member
        exact fromDevice later (List.mem_cons_of_mem store member)
      · rcases word with ⟨found, member, here⟩ | word
        · rcases List.mem_cons.mp member with isFirst | inRest
          · subst found
            exact .inr
              (WordFrom.store firstWhole firstFrom le (.inl here))
          · exact .inl ⟨found, inRest, here⟩
        · exact .inr
            (WordFrom.store firstWhole firstFrom le (.inr word))

/-- A sound fill leaves the cells outside its target alone. -/
theorem Fill.Sound.applyTo_outside
    {device : Device}
    {start dest unit count : Nat}
    {fill : Fill}
    (sound : fill.Sound device start dest unit count)
    (contents : Nat → Cell)
    {query : Nat}
    (outside : query < dest ∨ dest + unit * count ≤ query) :
    fill.applyTo contents query = contents query := by
  have inside := sound.inside
  unfold Fill.applyTo
  generalize fill.stores = stores at inside
  induction stores generalizing contents with
  | nil =>
      rfl
  | cons store rest inductionHypothesis =>
      have bounds := inside store List.mem_cons_self
      rw [List.foldl_cons, inductionHypothesis]
      · rcases outside with below | above
        · exact CellMemory.store_below (by omega)
        · apply CellMemory.store_above
          rw [Store.cells_length]
          omega
      · intro later member
        exact inside later (List.mem_cons_of_mem store member)

/-- Words from the device survive a sound fill of whole words. -/
theorem Fill.Sound.applyTo_keeps
    {device : Device}
    {since start dest unit count : Nat}
    {fill : Fill}
    (sound : fill.Sound device start dest unit count)
    (aligned : fill.Aligned)
    (le : since ≤ start)
    {contents : Nat → Cell}
    {index : Nat}
    (word : WordFrom device since contents index) :
    WordFrom device since (fill.applyTo contents) index :=
  WordFrom.applyStores le aligned sound.fromDevice (.inr word)

/-- A complete fill of whole words makes every word of its target fresh. -/
theorem Fill.Sound.applyTo_fresh
    {device : Device}
    {start dest count : Nat}
    {fill : Fill}
    (sound : fill.Sound device start dest 1 count)
    (aligned : fill.Aligned)
    (complete : fill.generated = count)
    (contents : Nat → Cell)
    {index : Nat}
    (atLeast : dest ≤ 8 * index)
    (below : 8 * index < dest + count) :
    WordFrom device start (fill.applyTo contents) index := by
  obtain ⟨store, member, lower, upper⟩ :=
    sound.complete complete (8 * index) atLeast (by omega)
  have whole := aligned store member
  have storeAligned := whole.aligned
  have length := whole.length
  apply WordFrom.applyStores (Nat.le_refl start) aligned sound.fromDevice
  exact .inl ⟨store, member, by omega⟩

/-- The cell is a byte that a successful step since `since` delivered. -/
def Cell.FromDevice
    (device : Device)
    (since : Nat)
    (cell : Cell) : Prop :=
  ∃ position lane,
    since ≤ position ∧
      lane < 8 ∧
      device.Delivers position ∧
      cell = Cell.ofStep device position lane

/-- The bytes of a word from the device are from the device. -/
theorem WordFrom.cell
    {device : Device}
    {since : Nat}
    {contents : Nat → Cell}
    {offset : Nat}
    (word : WordFrom device since contents (offset / 8)) :
    (contents offset).FromDevice device since := by
  obtain ⟨position, notBefore, delivers, lanes⟩ := word
  have small : offset % 8 < 8 := Nat.mod_lt _ (by decide)
  refine ⟨position, offset % 8, notBefore, small, delivers, ?_⟩
  rw [← lanes (offset % 8) small, Nat.div_add_mod]

/-- The cells of a store from the device are from the device. -/
theorem Store.FromDevice.cell
    {device : Device}
    {start finish : Nat}
    {store : Store}
    (fromDevice : store.FromDevice device start finish)
    {cell : Cell}
    (member : cell ∈ store.cells) :
    cell.FromDevice device start := by
  obtain ⟨lane, small, rfl⟩ := List.getElem_of_mem member
  have length := congrArg List.length fromDevice.contents
  rw [List.length_take, wordBytes_length] at length
  rw [Store.cells_length] at small
  exact
    ⟨store.origin, lane, fromDevice.notBefore, by omega,
      fromDevice.delivered, Store.cells_ofStep fromDevice _⟩

/-- Every cell that a sound fill covers is from the device. -/
theorem Fill.Sound.applyTo_covered
    {device : Device}
    {start dest unit count : Nat}
    {fill : Fill}
    (sound : fill.Sound device start dest unit count)
    (contents : Nat → Cell)
    {address : Nat}
    (covers : fill.Covers address) :
    (fill.applyTo contents address).FromDevice device start := by
  have fromDevice := sound.fromDevice
  have stored :
      (∃ store ∈ fill.stores, store.Covers address) ∨
        (contents address).FromDevice device start :=
    .inl covers
  clear covers
  unfold Fill.applyTo
  generalize fill.stores = stores at fromDevice stored
  induction stores generalizing contents with
  | nil =>
      rcases stored with ⟨store, member, _⟩ | old
      · cases member
      · exact old
  | cons store rest inductionHypothesis =>
      rw [List.foldl_cons]
      apply inductionHypothesis
      · intro later member
        exact fromDevice later (List.mem_cons_of_mem store member)
      · have first := fromDevice store List.mem_cons_self
        rcases stored with ⟨found, member, covers⟩ | old
        · rcases List.mem_cons.mp member with isFirst | inRest
          · subst found
            right
            apply first.cell
            apply CellMemory.store_mem covers.1
            rw [Store.cells_length]
            exact covers.2
          · exact .inl ⟨found, inRest, covers⟩
        · right
          rcases CellMemory.store_eq_or_mem contents store.address
              store.cells address with kept | stored
          · rw [kept]
            exact old
          · exact first.cell stored

/-- Whatever the device put into some contents came before a position. -/
def StepsBefore (position : Nat) (contents : Nat → Cell) : Prop :=
  ∀ offset step,
    (contents offset).origin = .step step → step < position

theorem StepsBefore.mono
    {position later : Nat}
    {contents : Nat → Cell}
    (before : StepsBefore position contents)
    (le : position ≤ later) :
    StepsBefore later contents :=
  fun offset step origin =>
    Nat.lt_of_lt_of_le (before offset step origin) le

/-- The cells of a store come from its step. -/
theorem Store.cells_origin
    {store : Store}
    {cell : Cell}
    (member : cell ∈ store.cells) :
    cell.origin = .step store.origin := by
  obtain ⟨value, _, rfl⟩ := List.mem_map.mp member
  rfl

/-- A sound fill stores only what the device gave before its end. -/
theorem Fill.Sound.applyTo_before
    {device : Device}
    {start dest unit count : Nat}
    {fill : Fill}
    (sound : fill.Sound device start dest unit count)
    {contents : Nat → Cell}
    (before : StepsBefore start contents) :
    StepsBefore fill.position (fill.applyTo contents) := by
  have kept := before.mono sound.advances
  have fromDevice := sound.fromDevice
  unfold Fill.applyTo
  generalize fill.stores = stores at fromDevice
  clear before
  induction stores generalizing contents with
  | nil =>
      exact kept
  | cons store rest inductionHypothesis =>
      apply inductionHypothesis
      · intro offset step origin
        change
          (CellMemory.store contents store.address store.cells
            offset).origin = .step step at origin
        rcases CellMemory.store_eq_or_mem contents store.address
            store.cells offset with old | stored
        · rw [old] at origin
          exact kept offset step origin
        · rw [Store.cells_origin stored] at origin
          cases origin
          exact (fromDevice store List.mem_cons_self).before
      · intro later member
        exact fromDevice later (List.mem_cons_of_mem store member)

end RdRand
