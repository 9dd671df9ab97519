import Mathlib.Data.List.Basic
import Mathlib.Logic.Function.Basic

namespace MemoryBlocks

/-!
# The life of memory blocks

A block of memory is allocated, used within its size, and freed.  Where it may
hold a secret, it has to be cleared before it is freed, and what was locked
has to be unlocked.  A memory takes an event only if the block it is about
allows it, so that a run of events that gets through misuses no block.

Blocks do not interfere: whether a run gets through, and what it leaves, can
be told for each block from the events about this block.
-/

/-- What is done to a block; counts are of bytes from its front on. -/
inductive Action where
  | allocate (size : Nat)
  | load (count : Nat)
  | store (count : Nat)
  | clear (count : Nat)
  | lock
  | unlock
  | release
  deriving Repr, DecidableEq

/-- A block, with the number of bytes at its front that may be secret. -/
inductive Status where
  | unused
  | live (size secret : Nat) (locked : Bool)
  | released
  deriving Repr, DecidableEq

/-- The block is allocated. -/
def Status.isLive : Status → Bool
  | .live _ _ _ => true
  | _ => false

/-- What an action makes of a block, `none` where the block is misused. -/
def Action.perform : Action → Status → Option Status
  | .allocate size, .unused => some (.live size 0 false)
  | .load count, .live size secret locked =>
      if count ≤ size then
        some (.live size secret locked)
      else
        none
  | .store count, .live size secret locked =>
      if count ≤ size then
        some (.live size (max secret count) locked)
      else
        none
  | .clear count, .live size secret locked =>
      if count ≤ size then
        some (.live size (if secret ≤ count then 0 else secret) locked)
      else
        none
  | .lock, .live size secret _ => some (.live size secret true)
  | .unlock, .live size secret _ => some (.live size secret false)
  | .release, .live _ 0 false => some .released
  | _, _ => none

/-- Some actions on one block. -/
def history : List Action → Status → Option Status
  | [], status => some status
  | action :: rest, status => (action.perform status).bind (history rest)

section Memories

variable {Block : Type*}

/-- An action on a block. -/
structure Event (Block : Type*) where
  block : Block
  action : Action
  deriving Repr, DecidableEq

/-- All blocks. -/
abbrev Heap (Block : Type*) := Block → Status

/-- No block was allocated yet. -/
def Heap.empty : Heap Block := fun _ => .unused

/-- Some actions, all on one block. -/
def on (block : Block) (actions : List Action) : List (Event Block) :=
  actions.map fun action => { block := block, action := action }

variable [DecidableEq Block]

/-- What an event makes of a memory. -/
def Event.perform
    (event : Event Block)
    (memory : Heap Block) : Option (Heap Block) :=
  (event.action.perform (memory event.block)).map
    (Function.update memory event.block)

/-- A run of events, `none` where one of them misuses its block. -/
def run : List (Event Block) → Heap Block → Option (Heap Block)
  | [], memory => some memory
  | event :: rest, memory => (event.perform memory).bind (run rest)

/-- The actions on one block among some events. -/
def actionsOn (block : Block) (events : List (Event Block)) : List Action :=
  (events.filter fun event => decide (event.block = block)).map
    Event.action

@[simp] theorem actionsOn_nil (block : Block) :
    actionsOn block [] = [] :=
  rfl

@[simp] theorem actionsOn_append
    (block : Block)
    (first second : List (Event Block)) :
    actionsOn block (first ++ second) =
      actionsOn block first ++ actionsOn block second := by
  simp [actionsOn]

@[simp] theorem actionsOn_on
    (block other : Block)
    (actions : List Action) :
    actionsOn block (on other actions) =
      if other = block then actions else [] := by
  by_cases same : other = block
  · simp [actionsOn, on, same, List.filter_eq_self.mpr,
      Function.comp_def]
  · simp [actionsOn, on, same]

/-- Of some different blocks, each has its own actions only. -/
theorem actionsOn_flatMap_on
    (block : Block)
    (actions : Block → List Action)
    {blocks : List Block}
    (different : blocks.Nodup) :
    actionsOn block
        (blocks.flatMap fun other => on other (actions other)) =
      if block ∈ blocks then actions block else [] := by
  induction different with
  | nil =>
      rfl
  | @cons other rest fresh _ inductionHypothesis =>
      rw [List.flatMap_cons, actionsOn_append, actionsOn_on,
        inductionHypothesis]
      by_cases same : other = block
      · have absent : block ∉ rest :=
          fun member => fresh block member same
        rw [if_pos same, if_neg absent, List.append_nil, same,
          if_pos List.mem_cons_self]
      · simp [same, Ne.symm same]

theorem actionsOn_cons
    (block : Block)
    (event : Event Block)
    (events : List (Event Block)) :
    actionsOn block (event :: events) =
      if event.block = block then
        event.action :: actionsOn block events
      else
        actionsOn block events := by
  by_cases same : event.block = block
  · simp [actionsOn, same]
  · simp [actionsOn, same]

/-- A run gets through where the actions on every block do. -/
theorem run_eq_some_iff
    (events : List (Event Block))
    (memory final : Heap Block) :
    run events memory = some final ↔
      ∀ block,
        history (actionsOn block events) (memory block) =
          some (final block) := by
  induction events generalizing memory with
  | nil =>
      simp only [run, actionsOn_nil, history, Option.some.injEq,
        funext_iff]
  | cons event rest inductionHypothesis =>
      simp only [run, Event.perform]
      cases done : event.action.perform (memory event.block) with
      | none =>
          refine iff_of_false nofun fun through => ?_
          have here := through event.block
          rw [actionsOn_cons, if_pos rfl, history, done] at here
          cases here
      | some status =>
          simp only [Option.map_some, Option.bind_some,
            inductionHypothesis]
          refine forall_congr' fun block => ?_
          rw [actionsOn_cons]
          by_cases same : event.block = block
          · rw [if_pos same, history, ← same, done, Option.bind_some,
              Function.update_self]
          · rw [if_neg same,
              Function.update_of_ne (Ne.symm same)]

/-- One run after another. -/
theorem run_append
    (first second : List (Event Block))
    (memory : Heap Block) :
    run (first ++ second) memory =
      (run first memory).bind (run second) := by
  induction first generalizing memory with
  | nil =>
      rfl
  | cons event rest inductionHypothesis =>
      simp only [List.cons_append, run, Option.bind_assoc,
        funext inductionHypothesis]

end Memories

/-- The block is allocated with a size, and its secret is within it. -/
def Status.Allocated (size : Nat) (status : Status) : Prop :=
  ∃ secret locked,
    secret ≤ size ∧ status = .live size secret locked

theorem Status.Allocated.isLive
    {size : Nat}
    {status : Status}
    (allocated : status.Allocated size) :
    status.isLive = true := by
  obtain ⟨secret, locked, _, rfl⟩ := allocated
  rfl

/-- The action uses an allocated block within a size. -/
def Action.Uses (size : Nat) : Action → Prop
  | .load count => count ≤ size
  | .store count => count ≤ size
  | .clear count => count ≤ size
  | .lock => True
  | .unlock => True
  | .allocate _ => False
  | .release => False

/-- A block that is used stays allocated. -/
theorem Action.Uses.perform
    {size : Nat}
    {action : Action}
    (uses : action.Uses size)
    {status : Status}
    (allocated : status.Allocated size) :
    ∃ after,
      action.perform status = some after ∧ after.Allocated size := by
  obtain ⟨secret, locked, within, rfl⟩ := allocated
  cases action with
  | allocate _ =>
      cases uses
  | load count =>
      exact ⟨_, if_pos uses, secret, locked, within, rfl⟩
  | store count =>
      exact
        ⟨_, if_pos uses, _, locked, Nat.max_le.mpr ⟨within, uses⟩, rfl⟩
  | clear count =>
      refine ⟨_, if_pos uses, _, locked, ?_, rfl⟩
      split
      · exact Nat.zero_le size
      · exact within
  | lock =>
      exact ⟨_, rfl, secret, true, within, rfl⟩
  | unlock =>
      exact ⟨_, rfl, secret, false, within, rfl⟩
  | release =>
      cases uses

/-- Clearing a whole block twice, unlocking and freeing it is allowed. -/
theorem history_free
    {size : Nat}
    {status : Status}
    (allocated : status.Allocated size) :
    history [.clear size, .clear size, .unlock, .release] status =
      some .released := by
  obtain ⟨secret, locked, within, rfl⟩ := allocated
  simp [history, Action.perform, within]

section Kept

variable {Block : Type*}

/-- Blocks that are allocated stay so, and all others are left alone. -/
def Kept (memory final : Heap Block) : Prop :=
  ∀ block,
    final block = memory block ∨
      ∃ size,
        (memory block).Allocated size ∧ (final block).Allocated size

theorem Kept.refl (memory : Heap Block) : Kept memory memory :=
  fun _ => .inl rfl

theorem Kept.allocated
    {memory final : Heap Block}
    (kept : Kept memory final)
    {block : Block}
    {size : Nat}
    (allocated : (memory block).Allocated size) :
    (final block).Allocated size := by
  rcases kept block with same | ⟨other, before, after⟩
  · rw [same]
    exact allocated
  · obtain ⟨_, _, _, live⟩ := allocated
    obtain ⟨_, _, _, otherLive⟩ := before
    rw [live] at otherLive
    cases otherLive
    exact after

theorem Kept.trans
    {memory middle final : Heap Block}
    (first : Kept memory middle)
    (second : Kept middle final) :
    Kept memory final := by
  intro block
  rcases first block with same | ⟨size, before, after⟩
  · rw [← same]
    exact second block
  · exact .inr ⟨size, before, second.allocated after⟩

/-- A block that is not allocated is left alone. -/
theorem Kept.of_not_live
    {memory final : Heap Block}
    (kept : Kept memory final)
    {block : Block}
    (idle : (memory block).isLive = false) :
    final block = memory block := by
  rcases kept block with same | ⟨size, before, _⟩
  · exact same
  · rw [before.isLive] at idle
    cases idle

/-- What is allocated in the end was so before. -/
theorem Kept.isLive
    {memory final : Heap Block}
    (kept : Kept memory final)
    (block : Block) :
    (final block).isLive = (memory block).isLive := by
  rcases kept block with same | ⟨size, before, after⟩
  · rw [same]
  · rw [before.isLive, after.isLive]

/-- The events use allocated blocks within their sizes. -/
def Uses (memory : Heap Block) (events : List (Event Block)) : Prop :=
  ∀ event ∈ events,
    ∃ size,
      (memory event.block).Allocated size ∧ event.action.Uses size

theorem Uses.append
    {memory : Heap Block}
    {first second : List (Event Block)}
    (one : Uses memory first)
    (two : Uses memory second) :
    Uses memory (first ++ second) := by
  intro event member
  rcases List.mem_append.mp member with inFirst | inSecond
  · exact one event inFirst
  · exact two event inSecond

/-- One action that uses an allocated block. -/
theorem Uses.on
    {memory : Heap Block}
    {block : Block}
    {size : Nat}
    (allocated : (memory block).Allocated size)
    {action : Action}
    (uses : action.Uses size) :
    Uses memory (on block [action]) := by
  intro event member
  rw [List.mem_singleton.mp member]
  exact ⟨size, allocated, uses⟩

/-- Uses get through, and keep the blocks. -/
theorem Uses.run
    [DecidableEq Block]
    {memory : Heap Block}
    {events : List (Event Block)}
    (uses : Uses memory events) :
    ∃ final, run events memory = some final ∧ Kept memory final := by
  induction events generalizing memory with
  | nil =>
      exact ⟨memory, rfl, .refl memory⟩
  | cons event rest inductionHypothesis =>
      obtain ⟨size, allocated, use⟩ :=
        uses event List.mem_cons_self
      obtain ⟨status, done, still⟩ := use.perform allocated
      have kept :
          Kept memory (Function.update memory event.block status) := by
        intro block
        by_cases same : block = event.block
        · rw [same, Function.update_self]
          exact .inr ⟨size, allocated, still⟩
        · rw [Function.update_of_ne same]
          exact .inl rfl
      have stillUses :
          Uses (Function.update memory event.block status) rest := by
        intro other member
        obtain ⟨otherSize, before, otherUse⟩ :=
          uses other (List.mem_cons_of_mem event member)
        exact ⟨otherSize, kept.allocated before, otherUse⟩
      obtain ⟨final, through, later⟩ := inductionHypothesis stillUses
      refine ⟨final, ?_, kept.trans later⟩
      rw [MemoryBlocks.run, Event.perform, done]
      exact through

/-- A block is not read beyond its size. -/
theorem run_load_beyond
    [DecidableEq Block]
    {memory : Heap Block}
    {block : Block}
    {size count : Nat}
    (allocated : (memory block).Allocated size)
    (beyond : size < count)
    (rest : List (Event Block)) :
    MemoryBlocks.run (MemoryBlocks.on block [.load count] ++ rest)
      memory = none := by
  obtain ⟨secret, locked, _, live⟩ := allocated
  simp [MemoryBlocks.on, MemoryBlocks.run, Event.perform,
    Action.perform, live, Nat.not_le.mpr beyond]

end Kept

end MemoryBlocks
