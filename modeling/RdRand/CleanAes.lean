import RdRand.AesLifecycle
import RdRand.Histories

namespace RdRand

/-!
# What discarding keys releases

`keys_free` tests whether there are keys and forgets them, so that no array is
touched after it was freed.  `rdrand_clean_aes` frees the cipher context and
neither tests nor forgets it: after a second call in a row the context was
freed twice.  Whether this happens shows in the order of the calls alone.
-/

open Histories

/-- What is released, or used in order to release it. -/
inductive Release where
  | arrayOverwritten (array : Nat)
  | arrayFreed (array : Nat)
  | contextCleanedUp (context : Nat)
  | contextFreed (context : Nat)
  deriving Repr, DecidableEq

/-- Nothing is released that was freed before, or used for that. -/
def Release.Allowed (earlier : List Release) : Release → Prop
  | .arrayOverwritten array => .arrayFreed array ∉ earlier
  | .arrayFreed array => .arrayFreed array ∉ earlier
  | .contextCleanedUp context => .contextFreed context ∉ earlier
  | .contextFreed context => .contextFreed context ∉ earlier

/--
What `keys_free` releases, in its order; the strings of an array are
overwritten and freed with it.
-/
def keysFreeReleases (handles : Handles) : List Release :=
  if handles.keys = none then
    []
  else
    handles.keys.toList.map .arrayOverwritten ++
      handles.nonces.toList.map .arrayOverwritten ++
      handles.keys.toList.map .arrayFreed ++
      handles.nonces.toList.map .arrayFreed ++
      handles.context.toList.map .contextCleanedUp

/-- What `rdrand_clean_aes` releases. -/
def cleanAesReleases (handles : Handles) : List Release :=
  keysFreeReleases handles ++ handles.context.toList.map .contextFreed

/-- What a call releases. -/
def KeysCall.releases (handles : Handles) : KeysCall → List Release
  | .cleanAes => cleanAesReleases handles
  | .setAesKeys .. => []
  | .setAesRandomKey => []

/-- The library after some calls, with all they have released. -/
structure Lifecycle where
  state : AesState
  released : List Release

/-- One call. -/
def Lifecycle.perform
    (ssl : OpenSsl)
    (life : Lifecycle)
    (call : KeysCall) : Lifecycle where
  state := call.perform ssl life.state
  released := life.released ++ call.releases life.state.handles

/-- A sequence of calls, from the state before any call. -/
def lifecycle (ssl : OpenSsl) (calls : List KeysCall) : Lifecycle :=
  calls.foldl (Lifecycle.perform ssl) { state := aesStart, released := [] }

/--
After some calls the configuration points to a context that was freed: a
context was made and freed, and none was made since.
-/
def Stale (calls : List KeysCall) : Prop :=
  ∃ first later,
    calls = first ++ .cleanAes :: later ∧
      (∃ call ∈ first, call.Creates) ∧
      ∀ call ∈ later, ¬call.Creates

/-- A call is no `rdrand_clean_aes` that would free a context again. -/
def CleansFresh (earlier : List KeysCall) (call : KeysCall) : Prop :=
  call = .cleanAes → ¬Stale earlier

/--
What holds of the handles beside what was released: they were made, no array
among them was freed, and only what was made was freed.
-/
structure Held (released : List Release) (handles : Handles) : Prop where
  context : ∀ context ∈ handles.context, context < handles.contexts
  keys :
    ∀ array ∈ handles.keys,
      array < handles.mallocCalls ∧ .arrayFreed array ∉ released
  nonces :
    ∀ array ∈ handles.nonces,
      array < handles.mallocCalls ∧ .arrayFreed array ∉ released
  distinct : ∀ array ∈ handles.keys, array ∉ handles.nonces
  contextsFreed :
    ∀ context, .contextFreed context ∈ released →
      context < handles.contexts
  arraysFreed :
    ∀ array, .arrayFreed array ∈ released → array < handles.mallocCalls

section Held

variable
  {released : List Release}
  {handles after : Handles}

/-- An array that was not made yet was not freed. -/
theorem Held.unfreed
    (held : Held released handles)
    {array : Nat}
    (unused : handles.mallocCalls ≤ array) :
    .arrayFreed array ∉ released := by
  intro freed
  exact Nat.not_lt.mpr unused (held.arraysFreed array freed)

/-- A new context was not freed. -/
theorem Held.freshContext
    (held : Held released handles)
    (renewed : handles.Renewed after) :
    ∀ context ∈ after.context, .contextFreed context ∉ released := by
  rw [renewed.context]
  rintro _ ⟨⟩ freed
  exact Nat.lt_irrefl _ (held.contextsFreed _ freed)

/-- A new context keeps everything that was known, with new arrays or old. -/
theorem Held.renewed
    (held : Held released handles)
    (renewed : handles.Renewed after) :
    Held released after := by
  have contextsFreed :
      ∀ context, .contextFreed context ∈ released →
        context < after.contexts := by
    intro context freed
    have earlier := held.contextsFreed context freed
    have grown := renewed.contexts
    omega
  rcases renewed.arrays with ⟨keys, nonces, calls⟩ | ⟨calls, keys, nonces⟩
  · exact
      { context := renewed.context_lt
        keys := by
          rw [keys, calls]
          exact held.keys
        nonces := by
          rw [nonces, calls]
          exact held.nonces
        distinct := by
          rw [keys, nonces]
          exact held.distinct
        contextsFreed := contextsFreed
        arraysFreed := by
          rw [calls]
          exact held.arraysFreed }
  · exact
      { context := renewed.context_lt
        keys := by
          intro array member
          have new := keys array member
          exact ⟨by omega, held.unfreed (by omega)⟩
        nonces := by
          intro array member
          have new := nonces array member
          exact ⟨by omega, held.unfreed (by omega)⟩
        distinct := by
          intro array inKeys inNonces
          have first := keys array inKeys
          have second := nonces array inNonces
          omega
        contextsFreed := contextsFreed
        arraysFreed := by
          intro array freed
          have earlier := held.arraysFreed array freed
          omega }

/-- The contexts `rdrand_clean_aes` frees. -/
theorem contextFreed_mem_cleanAesReleases (context : Nat) :
    .contextFreed context ∈ cleanAesReleases handles ↔
      context ∈ handles.context := by
  unfold cleanAesReleases keysFreeReleases
  split <;> simp

/-- The arrays `rdrand_clean_aes` frees. -/
theorem arrayFreed_mem_cleanAesReleases (array : Nat) :
    .arrayFreed array ∈ cleanAesReleases handles ↔
      handles.keys ≠ none ∧
        (array ∈ handles.keys ∨ array ∈ handles.nonces) := by
  unfold cleanAesReleases keysFreeReleases
  split
  · next noKeys => simp [noKeys]
  · next someKeys => simp [someKeys]

/-- What is freed is forgotten, but for the context. -/
theorem Held.cleaned
    (held : Held released handles) :
    Held (released ++ cleanAesReleases handles)
      handles.cleaned where
  context := by
    rw [Handles.cleaned_context, Handles.cleaned_contexts]
    exact held.context
  keys := by
    rw [Handles.cleaned_keys]
    rintro _ ⟨⟩
  nonces := by
    intro array member
    obtain ⟨noKeys, inNonces⟩ := handles.mem_cleaned_nonces.mp member
    obtain ⟨made, notFreed⟩ := held.nonces array inNonces
    rw [Handles.cleaned_mallocCalls, List.mem_append,
      arrayFreed_mem_cleanAesReleases]
    exact
      ⟨made, fun freed => freed.elim notFreed
        fun freedNow => freedNow.1 noKeys⟩
  distinct := by
    rw [Handles.cleaned_keys]
    rintro _ ⟨⟩
  contextsFreed := by
    intro context freed
    rw [Handles.cleaned_contexts]
    rw [List.mem_append, contextFreed_mem_cleanAesReleases] at freed
    exact freed.elim (held.contextsFreed context) (held.context context)
  arraysFreed := by
    intro array freed
    rw [Handles.cleaned_mallocCalls]
    rw [List.mem_append, arrayFreed_mem_cleanAesReleases] at freed
    rcases freed with earlier | ⟨_, inKeys | inNonces⟩
    · exact held.arraysFreed array earlier
    · exact (held.keys array inKeys).1
    · exact (held.nonces array inNonces).1

/-- Discarding keys is in order as long as the context was not freed. -/
theorem Held.cleanAes_allowed
    (held : Held released handles)
    (notFreed :
      ∀ context ∈ handles.context, .contextFreed context ∉ released) :
    Each (fun earlier => Release.Allowed (released ++ earlier))
      (cleanAesReleases handles) := by
  have keys := held.keys
  have nonces := held.nonces
  have distinct := held.distinct
  obtain ⟨context, keyArray, nonceArray, contexts, mallocCalls⟩ := handles
  unfold cleanAesReleases keysFreeReleases
  cases context <;> cases keyArray <;> cases nonceArray <;>
    simp_all [Release.Allowed]

end Held

/-- A call at the end of some calls decides whether the context is stale. -/
theorem stale_append_singleton
    {calls : List KeysCall}
    {call : KeysCall} :
    Stale (calls ++ [call]) ↔
      (call = .cleanAes ∧ ∃ earlier ∈ calls, earlier.Creates) ∨
        (¬call.Creates ∧ Stale calls) := by
  constructor
  · rintro ⟨first, later, shape, created, quiet⟩
    rcases List.eq_nil_or_concat' later with rfl | ⟨front, last, rfl⟩
    · obtain ⟨rfl, sameCall⟩ := List.append_inj' shape rfl
      exact .inl ⟨List.singleton_inj.mp sameCall, created⟩
    · rw [← List.cons_append, ← List.append_assoc] at shape
      obtain ⟨rfl, sameCall⟩ := List.append_inj' shape rfl
      obtain rfl := List.singleton_inj.mp sameCall
      refine .inr ⟨quiet _ (by simp), first, front, rfl, created, ?_⟩
      intro other member
      exact quiet other (List.mem_append_left _ member)
  · rintro (⟨rfl, created⟩ | ⟨noContext, first, later, rfl, created, quiet⟩)
    · exact ⟨calls, [], rfl, created, by simp⟩
    · refine ⟨first, later ++ [call], by simp, created, ?_⟩
      intro other member
      rcases List.mem_append.mp member with inLater | isCall
      · exact quiet other inLater
      · rw [List.mem_singleton.mp isCall]
        exact noContext

section Run

variable (ssl : OpenSsl)

@[simp] theorem lifecycle_append_singleton
    (calls : List KeysCall)
    (call : KeysCall) :
    lifecycle ssl (calls ++ [call]) =
      (lifecycle ssl calls).perform ssl call := by
  simp [lifecycle]

/-- What some calls leave behind, beside what they have released. -/
structure Lifecycle.After
    (calls : List KeysCall)
    (life : Lifecycle) : Prop where
  held : Held life.released life.state.handles
  context :
    (∃ context, context ∈ life.state.handles.context) ↔
      ∃ call ∈ calls, call.Creates
  stale :
    (∃ context ∈ life.state.handles.context,
        .contextFreed context ∈ life.released) ↔
      Stale calls

/-- The state before any call. -/
theorem Lifecycle.After.start :
    Lifecycle.After [] { state := aesStart, released := [] } where
  held :=
    { context := by rintro _ ⟨⟩
      keys := by rintro _ ⟨⟩
      nonces := by rintro _ ⟨⟩
      distinct := by rintro _ ⟨⟩
      contextsFreed := by rintro _ ⟨⟩
      arraysFreed := by rintro _ ⟨⟩ }
  context := by
    simp [AesState.handles, aesStart, aesCfg]
  stale := by
    simp [AesState.handles, aesStart, aesCfg, Stale]

section Step

variable
  {calls : List KeysCall}
  {call : KeysCall}
  {life : Lifecycle}

/-- Discarding keys makes the context stale if there is one. -/
theorem Lifecycle.After.cleanAes
    (after : life.After calls) :
    (life.perform ssl .cleanAes).After (calls ++ [.cleanAes]) where
  held := by
    change
      Held (life.released ++ cleanAesReleases life.state.handles)
        (rdrandCleanAes life.state).handles
    rw [rdrandCleanAes_handles]
    exact after.held.cleaned
  context := by
    change
      (∃ context,
          context ∈ (rdrandCleanAes life.state).handles.context) ↔ _
    rw [rdrandCleanAes_handles, Handles.cleaned_context, after.context]
    simp [KeysCall.Creates]
  stale := by
    change
      (∃ context ∈ (rdrandCleanAes life.state).handles.context,
          .contextFreed context ∈
            life.released ++ cleanAesReleases life.state.handles) ↔ _
    rw [rdrandCleanAes_handles, Handles.cleaned_context,
      stale_append_singleton, ← after.context, ← after.stale]
    simp only [List.mem_append, contextFreed_mem_cleanAesReleases,
      true_and]
    constructor
    · rintro ⟨context, member, _⟩
      exact .inl ⟨context, member⟩
    · rintro (⟨context, member⟩ | ⟨_, context, member, freed⟩)
      · exact ⟨context, member, .inr member⟩
      · exact ⟨context, member, .inl freed⟩

/-- A new context is not stale. -/
theorem Lifecycle.After.creates
    (after : life.After calls)
    (creates : call.Creates) :
    (life.perform ssl call).After (calls ++ [call]) ∧
      (life.perform ssl call).released = life.released := by
  have noRelease :
      (life.perform ssl call).released = life.released := by
    cases call with
    | cleanAes =>
        exact creates.elim
    | _ =>
        exact List.append_nil _
  have renewed := creates.renewed ssl life.state
  have held := after.held.renewed renewed
  have fresh := after.held.freshContext renewed
  refine ⟨?_, noRelease⟩
  exact
    { held := by
        rw [noRelease]
        exact held
      context :=
        ⟨fun _ => ⟨call, by simp, creates⟩,
          fun _ => ⟨life.state.contexts, renewed.context⟩⟩
      stale := by
        rw [stale_append_singleton, noRelease]
        constructor
        · rintro ⟨context, member, freed⟩
          exact absurd freed (fresh context member)
        · rintro (⟨rfl, _⟩ | ⟨noContext, _⟩)
          · exact creates.elim
          · exact absurd creates noContext }

/-- A call that is refused at once changes nothing. -/
theorem Lifecycle.After.refused
    (after : life.After calls)
    (noContext : ¬call.Creates)
    (sets : call ≠ .cleanAes) :
    (life.perform ssl call).After (calls ++ [call]) ∧
      life.perform ssl call = life := by
  have same : life.perform ssl call = life := by
    have sameState :=
      KeysCall.perform_of_not_creates ssl noContext sets life.state
    have noRelease : call.releases life.state.handles = [] := by
      cases call with
      | cleanAes =>
          exact absurd rfl sets
      | _ =>
          rfl
    unfold Lifecycle.perform
    rw [sameState, noRelease, List.append_nil]
  rw [same]
  refine ⟨?_, rfl⟩
  exact
    { held := after.held
      context := by
        rw [after.context]
        simp [noContext]
      stale := by
        rw [after.stale, stale_append_singleton]
        simp [noContext, sets] }

end Step

/-- What every sequence of calls leaves behind. -/
theorem lifecycle_after (calls : List KeysCall) :
    (lifecycle ssl calls).After calls := by
  induction calls using List.reverseRecOn with
  | nil =>
      exact .start
  | append_singleton calls call inductionHypothesis =>
      rw [lifecycle_append_singleton]
      by_cases creates : call.Creates
      · exact (inductionHypothesis.creates ssl creates).1
      · by_cases cleans : call = .cleanAes
        · rw [cleans]
          exact inductionHypothesis.cleanAes ssl
        · exact (inductionHypothesis.refused ssl creates cleans).1

/-- What one more call releases is in order if it cleans no stale context. -/
theorem releases_step
    (calls : List KeysCall)
    (call : KeysCall)
    (kept : Each Release.Allowed (lifecycle ssl calls).released) :
    Each Release.Allowed (lifecycle ssl (calls ++ [call])).released ↔
      CleansFresh calls call := by
  have after := lifecycle_after ssl calls
  rw [lifecycle_append_singleton]
  by_cases cleans : call = .cleanAes
  · subst cleans
    change
      Each Release.Allowed
          ((lifecycle ssl calls).released ++
            cleanAesReleases (lifecycle ssl calls).state.handles) ↔ _
    rw [each_append]
    unfold CleansFresh
    rw [← after.stale]
    constructor
    · rintro ⟨_, law⟩ _ ⟨context, member, freed⟩
      obtain ⟨earlier, allowed⟩ :=
        law.allowed_of_mem
          ((contextFreed_mem_cleanAesReleases context).mpr member)
      exact allowed (List.mem_append_left earlier freed)
    · intro fresh
      refine ⟨kept, after.held.cleanAes_allowed ?_⟩
      intro context member freed
      exact fresh rfl ⟨context, member, freed⟩
  · have noRelease :
        ((lifecycle ssl calls).perform ssl call).released =
          (lifecycle ssl calls).released := by
      by_cases creates : call.Creates
      · exact (after.creates ssl creates).2
      · rw [(after.refused ssl creates cleans).2]
    rw [noRelease]
    exact ⟨fun _ isClean => absurd isClean cleans, fun _ => kept⟩

/--
What a sequence of calls releases is in order, with no context and no array
freed or used after it was freed, exactly if no call of `rdrand_clean_aes`
follows another one without a new context in between.
-/
theorem lifecycle_allowed_iff (calls : List KeysCall) :
    Each Release.Allowed (lifecycle ssl calls).released ↔
      Each CleansFresh calls := by
  refine each_record_iff rfl ?_ (releases_step ssl) calls
  intro earlier call
  rw [lifecycle_append_singleton]
  exact List.prefix_append _ _

/-- A key that is discarded twice. -/
theorem lifecycle_cleanAes_cleanAes :
    (lifecycle .sample
        [.setAesKeys 1 16 [List.replicate 16 1] [List.replicate 8 2],
          .cleanAes, .cleanAes]).released =
      [.arrayOverwritten 0, .arrayOverwritten 1, .arrayFreed 0,
        .arrayFreed 1, .contextCleanedUp 0, .contextFreed 0,
        .contextFreed 0] ∧
      ¬Each Release.Allowed
        (lifecycle .sample
          [.setAesKeys 1 16 [List.replicate 16 1] [List.replicate 8 2],
            .cleanAes, .cleanAes]).released := by
  have released :
      (lifecycle .sample
          [.setAesKeys 1 16 [List.replicate 16 1] [List.replicate 8 2],
            .cleanAes, .cleanAes]).released =
        [.arrayOverwritten 0, .arrayOverwritten 1, .arrayFreed 0,
          .arrayFreed 1, .contextCleanedUp 0, .contextFreed 0,
          .contextFreed 0] := by
    decide
  rw [released]
  refine ⟨rfl, ?_⟩
  intro law
  exact law
    [.arrayOverwritten 0, .arrayOverwritten 1, .arrayFreed 0,
      .arrayFreed 1, .contextCleanedUp 0, .contextFreed 0]
    (.contextFreed 0) [] rfl (by decide)

end Run

end RdRand
