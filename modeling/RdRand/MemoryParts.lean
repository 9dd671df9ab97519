import RdRand.MemoryBlocks

namespace MemoryBlocks

/-!
# Memories in two parts

A memory may consist of two parts whose blocks are used by turns.  Neither
part sees what is done to the other, so that a run over both gets through
exactly where the two runs do that it consists of.
-/

section Parts

variable {Left Right : Type*}

/-- An event about the first part. -/
def Event.left? : Event (Left ⊕ Right) → Option (Event Left)
  | { block := .inl block, action := action } =>
      some { block := block, action := action }
  | { block := .inr _, action := _ } => none

/-- An event about the second part. -/
def Event.right? : Event (Left ⊕ Right) → Option (Event Right)
  | { block := .inl _, action := _ } => none
  | { block := .inr block, action := action } =>
      some { block := block, action := action }

/-- The events about the first part. -/
def lefts (events : List (Event (Left ⊕ Right))) : List (Event Left) :=
  events.filterMap Event.left?

/-- The events about the second part. -/
def rights (events : List (Event (Left ⊕ Right))) : List (Event Right) :=
  events.filterMap Event.right?

/-- Events of the first part, as events of the whole memory. -/
def inLeft (events : List (Event Left)) : List (Event (Left ⊕ Right)) :=
  events.map fun event =>
    { block := .inl event.block, action := event.action }

/-- Events of the second part, as events of the whole memory. -/
def inRight (events : List (Event Right)) : List (Event (Left ⊕ Right)) :=
  events.map fun event =>
    { block := .inr event.block, action := event.action }

@[simp] theorem lefts_append
    (first second : List (Event (Left ⊕ Right))) :
    lefts (first ++ second) = lefts first ++ lefts second :=
  List.filterMap_append

@[simp] theorem rights_append
    (first second : List (Event (Left ⊕ Right))) :
    rights (first ++ second) = rights first ++ rights second :=
  List.filterMap_append

@[simp] theorem lefts_inLeft (events : List (Event Left)) :
    lefts (inLeft events : List (Event (Left ⊕ Right))) = events := by
  simp [lefts, inLeft, List.filterMap_map, Function.comp_def,
    Event.left?]

@[simp] theorem rights_inRight (events : List (Event Right)) :
    rights (inRight events : List (Event (Left ⊕ Right))) = events := by
  simp [rights, inRight, List.filterMap_map, Function.comp_def,
    Event.right?]

@[simp] theorem lefts_inRight (events : List (Event Right)) :
    lefts (inRight events : List (Event (Left ⊕ Right))) = [] := by
  simp [lefts, inRight, List.filterMap_map, Function.comp_def,
    Event.left?]

@[simp] theorem rights_inLeft (events : List (Event Left)) :
    rights (inLeft events : List (Event (Left ⊕ Right))) = [] := by
  simp [rights, inLeft, List.filterMap_map, Function.comp_def,
    Event.right?]

variable [DecidableEq Left] [DecidableEq Right]

/-- What is done to a block of the first part is among its events. -/
theorem actionsOn_inl
    (block : Left)
    (events : List (Event (Left ⊕ Right))) :
    actionsOn (.inl block) events = actionsOn block (lefts events) := by
  induction events with
  | nil =>
      rfl
  | cons event rest inductionHypothesis =>
      obtain ⟨other | other, action⟩ := event
      · change _ = actionsOn block (_ :: lefts rest)
        simp only [actionsOn_cons, inductionHypothesis, Sum.inl.injEq]
      · change _ = actionsOn block (lefts rest)
        simp only [actionsOn_cons, inductionHypothesis, reduceCtorEq,
          if_false]

theorem actionsOn_inr
    (block : Right)
    (events : List (Event (Left ⊕ Right))) :
    actionsOn (.inr block) events = actionsOn block (rights events) := by
  induction events with
  | nil =>
      rfl
  | cons event rest inductionHypothesis =>
      obtain ⟨other | other, action⟩ := event
      · change _ = actionsOn block (rights rest)
        simp only [actionsOn_cons, inductionHypothesis, reduceCtorEq,
          if_false]
      · change _ = actionsOn block (_ :: rights rest)
        simp only [actionsOn_cons, inductionHypothesis, Sum.inr.injEq]

/-- A run over both parts is a run over each. -/
theorem run_parts
    (events : List (Event (Left ⊕ Right)))
    (memory final : Heap (Left ⊕ Right)) :
    run events memory = some final ↔
      run (lefts events) (memory ∘ .inl) = some (final ∘ .inl) ∧
        run (rights events) (memory ∘ .inr) = some (final ∘ .inr) := by
  simp only [run_eq_some_iff, Sum.forall, actionsOn_inl, actionsOn_inr,
    Function.comp_apply]

/-- A run over both parts gets through where the two runs do. -/
theorem run_parts_iff
    (events : List (Event (Left ⊕ Right)))
    (memory : Heap (Left ⊕ Right)) :
    (∃ final, run events memory = some final) ↔
      (∃ left, run (lefts events) (memory ∘ .inl) = some left) ∧
        ∃ right, run (rights events) (memory ∘ .inr) = some right := by
  constructor
  · rintro ⟨final, through⟩
    obtain ⟨left, right⟩ := (run_parts events memory final).mp through
    exact ⟨⟨_, left⟩, ⟨_, right⟩⟩
  · rintro ⟨⟨left, throughLeft⟩, ⟨right, throughRight⟩⟩
    exact
      ⟨Sum.elim left right,
        (run_parts events memory _).mpr ⟨throughLeft, throughRight⟩⟩

end Parts

section Single

variable {Block : Type*} [DecidableEq Block]

/-- Actions on one block change this block. -/
theorem run_on
    (block : Block)
    (actions : List Action)
    (memory : Heap Block) :
    run (on block actions) memory =
      (history actions (memory block)).map
        (Function.update memory block) := by
  induction actions generalizing memory with
  | nil =>
      simp [on, run, history]
  | cons action rest inductionHypothesis =>
      change
        (Event.perform { block := block, action := action } memory).bind
            (run (on block rest)) =
          _
      simp only [Event.perform, history]
      cases action.perform (memory block) with
      | none =>
          rfl
      | some status =>
          simp only [Option.map_some, Option.bind_some,
            inductionHypothesis, Function.update_self]
          congr 1
          funext after
          exact Function.update_idem _ _ _

/-- Actions on one block that get through, and then other events. -/
theorem run_on_append
    {block : Block}
    {actions : List Action}
    {memory : Heap Block}
    {after : Status}
    (done : history actions (memory block) = some after)
    (rest : List (Event Block)) :
    run (on block actions ++ rest) memory =
      run rest (Function.update memory block after) := by
  rw [run_append, run_on, done]
  rfl

/-- Actions on two blocks that get through, and then other events. -/
theorem run_on_pair
    {first second : Block}
    {firstActions secondActions : List Action}
    {memory : Heap Block}
    {firstAfter secondAfter : Status}
    (apart : first ≠ second)
    (firstDone : history firstActions (memory first) = some firstAfter)
    (secondDone :
      history secondActions (memory second) = some secondAfter)
    (rest : List (Event Block)) :
    run (on first firstActions ++ (on second secondActions ++ rest))
        memory =
      run rest
        (Function.update (Function.update memory first firstAfter) second
          secondAfter) := by
  have unchanged :
      Function.update memory first firstAfter second = memory second :=
    Function.update_of_ne apart.symm _ _
  rw [run_on_append firstDone, run_on_append (unchanged ▸ secondDone)]

/-- Actions on one block that misuse it. -/
theorem run_on_misuse
    {block : Block}
    {actions : List Action}
    {memory : Heap Block}
    (misuse : history actions (memory block) = none)
    (rest : List (Event Block)) :
    run (on block actions ++ rest) memory = none := by
  rw [run_append, run_on, misuse]
  rfl

/-- Reading within allocated blocks changes nothing. -/
theorem run_loads
    {memory : Heap Block}
    {events : List (Event Block)}
    (loads :
      ∀ event ∈ events,
        ∃ size count,
          (memory event.block).Allocated size ∧
            event.action = .load count ∧
            count ≤ size) :
    run events memory = some memory := by
  induction events with
  | nil =>
      rfl
  | cons event rest inductionHypothesis =>
      obtain ⟨size, count, ⟨secret, locked, _, live⟩, load, within⟩ :=
        loads event List.mem_cons_self
      have done :
          event.action.perform (memory event.block) =
            some (memory event.block) := by
        rw [load, live]
        exact if_pos within
      rw [run, Event.perform, done, Option.map_some, Option.bind_some,
        Function.update_eq_self]
      exact
        inductionHypothesis fun other member =>
          loads other (List.mem_cons_of_mem event member)

end Single

/-- Stores at some indices of an allocated array, byte by byte. -/
theorem history_stores
    {size secret : Nat}
    {locked : Bool}
    {indices : List Nat}
    (inBounds : ∀ index ∈ indices, index < size) :
    ∃ later,
      history (indices.map fun index => .store (index + 1))
          (.live size secret locked) =
        some (.live size later locked) := by
  induction indices generalizing secret with
  | nil =>
      exact ⟨secret, rfl⟩
  | cons index rest inductionHypothesis =>
      have below := inBounds index List.mem_cons_self
      obtain ⟨later, done⟩ :=
        @inductionHypothesis (max secret (index + 1))
          fun other member =>
            inBounds other (List.mem_cons_of_mem index member)
      refine ⟨later, ?_⟩
      rw [List.map_cons, history, Action.perform,
        if_pos (Nat.succ_le_of_lt below)]
      exact done

/-- A store beyond the array misuses it. -/
theorem history_stores_beyond
    {size secret : Nat}
    {locked : Bool}
    {indices : List Nat}
    (beyond : ∃ index ∈ indices, size ≤ index) :
    history (indices.map fun index => .store (index + 1))
        (.live size secret locked) =
      none := by
  induction indices generalizing secret with
  | nil =>
      obtain ⟨_, member, _⟩ := beyond
      cases member
  | cons index rest inductionHypothesis =>
      rw [List.map_cons, history, Action.perform]
      split
      · next within =>
          obtain ⟨other, member, outside⟩ := beyond
          rcases List.mem_cons.mp member with rfl | later
          · omega
          · exact inductionHypothesis ⟨other, later, outside⟩
      · rfl

end MemoryBlocks
