import RdRand.EncryptionCalls
import RdRand.KeyFileFits
import RdRand.LibraryMemory
import RdRand.ProgramExit

namespace RdRand

/-!
# The memory of the program

`main` sets keys, encrypts one buffer after another and discards the keys.
The memory that is followed here is that of the keys: the blocks of the library
on the heap, the strings of the lines of a key file, and the arrays on the
stack of `load_keys` and `load_key_line`.  The buffers for random bytes are not
part of it.  A run of the program misuses none of these blocks exactly if the
key file that it reads fits.  When it succeeds, it leaves no key on the heap.
-/

open ControlLoop MemoryBlocks

/-- `rdrand_enc_buffer` on one buffer after another. -/
def buffersMemory (ssl : OpenSsl) :
    List (List Byte) → AesState → BlockEvents
  | [], _ => []
  | source :: rest, state =>
      encBufferMemory ssl (source.length / maxBufferSize) source state ++
        buffersMemory ssl rest (rdrandEncBuffer ssl source state).state

namespace World

variable (world : World) (locks : MemoryLocks)

/-- The keys that `main` sets where there is to be encryption. -/
def setKeysMemory (config : Cnf) : ProgramEvents :=
  if config.aesFlag then
    match config.aeskeysFilename with
    | some name =>
        match world.keyFile config.outputFilename name with
        | none => []
        | some contents =>
            loadKeysMemory world.ssl world.heap locks contents aesStart
    | none =>
        inLeft (rdrandSetAesRandomKeyMemory world.ssl locks aesStart)
  else
    []

/-- `main` from the call of `generate` on. -/
def generateAndCleanMemory
    (config : Cnf)
    (aes : AesState)
    (passes : Nat) : BlockEvents :=
  buffersMemory world.ssl
      (encryptedBuffers
        (generateTrace world.env (rdrandEncBufferCells world.ssl) config
          aes passes))
      aes ++
    match
      generate world.env (rdrandEncBufferCells world.ssl) config aes
        passes with
    | none => []
    | some _ =>
        if config.aesFlag then
          keysFreeMemory locks
            (generateAes world.env world.ssl config aes passes).cfg.keys
        else
          []

/-- `main` once the keys are set, or could not be. -/
def settledMemory
    (config : Cnf)
    (passes : Nat) : Option KeysSet → BlockEvents
  | none => []
  | some set =>
      match set.complaint with
      | some _ => []
      | none =>
          if rdrandTestSupport world.features = rdrandSupported then
            world.generateAndCleanMemory locks config set.aes passes
          else
            []

/-- `main` once the output is open. -/
def withOutputMemory (config : Cnf) (passes : Nat) : ProgramEvents :=
  world.setKeysMemory locks config ++
    inLeft
      (world.settledMemory locks config passes (world.setKeys config))

/-- `main` for a configuration that asks for random bytes. -/
def openAndRunMemory (config : Cnf) (passes : Nat) : ProgramEvents :=
  match config.outputFilename with
  | some name =>
      if world.opensOutput name then
        world.withOutputMemory locks config passes
      else
        []
  | none =>
      world.withOutputMemory locks config passes

/--
`main`, where the chunk loop of `generate` makes at most so many passes: what
it does until then to the blocks that are for keys.
-/
def mainMemory (passes : Nat) : ProgramEvents :=
  match
    parseArgs world.libc world.errno world.arguments
      defaultConfigSetting with
  | (.failure, _) => []
  | (.success, config) =>
      if config.helpFlag then
        []
      else if config.versionFlag then
        []
      else
        world.openAndRunMemory locks config passes

/-- The program gets as far as setting the keys. -/
structure SetsKeys : Prop where
  accepted : Acceptable world.libc world.errno world.arguments
  generates : world.Generates
  opened :
    ∀ name ∈ world.request.outputFilename, world.opensOutput name = true

/-- The program reads a key file with these contents. -/
def ReadsKeys (contents : List Char) : Prop :=
  world.SetsKeys ∧
    ∃ name ∈ world.request.aeskeysFilename,
      world.keyFile world.request.outputFilename name = some contents

end World

/-- The library between two calls: what there is belongs to the keys. -/
structure KeysReady
    (state : AesState)
    (memory : Heap Block) : Prop where
  held : MemoryHeld state memory
  long : KeysLong state
  noLeak : NoLeak state memory

section Library

variable
  {ssl : OpenSsl}
  {locks : MemoryLocks}
  {state : AesState}
  {memory : Heap Block}

/-- Without keys nothing need be allocated. -/
theorem keysReady_unset
    (unset : state.cfg.keys.keys.identity = none) :
    KeysReady state Heap.empty where
  held :=
    { fresh := fun _ _ => rfl
      held := fun some => absurd unset some
      apart := fun some => absurd unset some }
  long some := absurd unset some
  noLeak block live := by
    cases live

/-- A call that is made of a library in this state. -/
theorem KeysReady.step
    {after : AesState}
    {final : Heap Block}
    {sets : Prop}
    (ready : KeysReady state memory)
    (first : sets → state.cfg.keys.keys.identity = none)
    (step : MemoryStep sets state after memory final) :
    KeysReady after final where
  held := step.held
  long := step.long
  noLeak := step.noLeak first ready.noLeak

/-- Encrypting buffers misuses no block where there are keys. -/
theorem buffersMemory_run
    (buffers : List (List Byte))
    (ready : KeysReady state memory)
    (keyed : state.cfg.keys.keys.identity ≠ none) :
    ∃ final,
      run (buffersMemory ssl buffers state) memory = some final ∧
        KeysReady (afterBuffers ssl buffers state) final := by
  induction buffers generalizing state memory with
  | nil =>
      exact ⟨memory, rfl, ready⟩
  | cons source rest inductionHypothesis =>
      have reaches :
          AesReaches ssl state (rdrandEncBuffer ssl source state).state :=
        encBufferChunks_reaches _ source state
      obtain ⟨middle, through, kept⟩ :=
        encBuffer_keeps ssl (source.length / maxBufferSize) source
          (ready.held.held keyed) (ready.long keyed)
      have later :
          KeysReady (rdrandEncBuffer ssl source state).state middle :=
        ready.step (fun no => no.elim)
          (.kept False ready.held ready.long reaches.pointers
            (congrArg Handles.mallocCalls reaches.handles) kept)
      have stillKeyed :
          (rdrandEncBuffer ssl source
            state).state.cfg.keys.keys.identity ≠ none := by
        rw [reaches.pointers.keys]
        exact keyed
      obtain ⟨final, others, ended⟩ :=
        inductionHypothesis later stillKeyed
      refine ⟨final, ?_, ended⟩
      rw [buffersMemory, run_append, through]
      exact others

/-- With memory at hand a random key is set. -/
theorem rdrandSetAesRandomKey_keyed
    (malloc : ∀ call, ssl.mallocOk call = true)
    (state : AesState) :
    (rdrandSetAesRandomKey ssl
      state).state.cfg.keys.keys.identity ≠ none := by
  have success :
      (keysAllocate ssl 1 defaultKeyLen
        (resetKeys .keysGenerated 0 state)).success = true :=
    keysAllocate_success malloc (by decide) (by decide) _
  unfold rdrandSetAesRandomKey
  simp only
  rw [if_pos success, (keyGenerate_pointers ssl _).keys,
    (keysAllocate_spec ssl success).2]
  exact Option.some_ne_none _

/-- Keys that were set are there. -/
theorem rdrandSetAesKeys_keyed
    {amount keyLength : Nat}
    {keys nonces : List (List Byte)}
    (success :
      (rdrandSetAesKeys ssl amount keyLength keys nonces
        state).success = true) :
    (rdrandSetAesKeys ssl amount keyLength keys nonces
      state).state.cfg.keys.keys.identity ≠ none := by
  unfold rdrandSetAesKeys at success ⊢
  split at success
  · cases success
  · next inRange =>
      rw [if_neg inRange]
      simp only at success ⊢
      split at success
      · next allocated =>
          rw [if_pos allocated, keyToOpenssl_keys,
            (keysAllocate_spec ssl allocated).2]
          exact Option.some_ne_none _
      · cases success

end Library

section KeyFile

variable
  {ssl : OpenSsl}
  {heap : Nat → List Byte}
  {locks : MemoryLocks}
  {contents : List Char}
  {state : AesState}
  {count : Nat}
  {next load : KeyLoad}
  {failure : FileError}

/-- What `load_keys` does to the blocks of the keys. -/
theorem KeyFileRun.lefts
    (run : KeyFileRun ssl heap contents state count next failure load) :
    lefts (loadKeysMemory ssl heap locks contents state) =
      if failure = .eof ∧ load.amount ≠ 0 then
        rdrandSetAesKeysMemory ssl locks load.amount load.firstLen
          load.aes
      else
        [] := by
  unfold loadKeysMemory
  simp only [lefts_append, lefts_inRight, List.nil_append, run.run]
  by_cases eof : failure = .eof
  · subst eof
    change lefts (setLoadedKeysMemory ssl locks load _) = _
    unfold setLoadedKeysMemory
    by_cases nothing : load.amount = 0
    · rw [if_pos nothing, if_neg (fun both => both.2 nothing)]
      rfl
    · have sets : FileError.eof = .eof ∧ load.amount ≠ 0 :=
        ⟨rfl, nothing⟩
      rw [if_neg nothing, if_pos sets]
      simp
  · rw [if_neg (fun both => eof both.1)]
    cases failure with
    | eof =>
        exact absurd rfl eof
    | _ =>
        rfl

/-- Reading the lines does nothing to the keys. -/
theorem KeyFileRun.cfg
    (run : KeyFileRun ssl heap contents state count next failure load) :
    load.aes.cfg = state.cfg := by
  rw [run.leaves.aes, KeyLoad.aesAfter, run.reads.adds.aes]
  rfl

/-- Keys that are set from a file that fits are set within the memory. -/
theorem loadKeysMemory_lefts_run
    (malloc : ∀ call, ssl.mallocOk call = true)
    (unset : state.cfg.keys.keys.identity = none)
    (fits : ¬ KeyFileText 8 contents) :
    ∃ loaded final,
      loadKeys ssl heap contents state = some loaded ∧
        MemoryBlocks.run
            (lefts (loadKeysMemory ssl heap locks contents state))
            Heap.empty = some final ∧
        KeysReady loaded.state final ∧
        (loaded.result = .ok →
          loaded.state.cfg.keys.keys.identity ≠ none) := by
  obtain ⟨count, next, failure, load, run⟩ :=
    loadKeys_run ssl heap contents state
  have text := run.text_iff heap malloc 8
  have before : load.aes.cfg.keys.keys.identity = none := by
    rw [run.cfg]
    exact unset
  have ready : KeysReady load.aes Heap.empty := keysReady_unset before
  by_cases eof : failure = .eof
  · by_cases nothing : load.amount = 0
    · refine ⟨_, Heap.empty, run.loadKeys_eq, ?_, ?_⟩
      · rw [run.lefts, if_neg (fun both => both.2 nothing)]
        rfl
      · rw [if_pos eof, setLoadedKeys, if_pos nothing]
        exact ⟨ready, nofun⟩
    · have long :
          ¬ (KeysCall.setAesKeys load.amount load.firstLen load.keys
            load.nonces).Overruns := by
        rintro ⟨some, eight⟩
        exact fits (text.mpr ⟨eof, some, eight, .inl rfl⟩)
      obtain ⟨final, through, step⟩ :=
        @rdrandSetAesKeys_memory ssl locks load.aes Heap.empty malloc
          ready.held ready.long load.amount load.firstLen load.keys
          load.nonces long
      refine ⟨_, final, run.loadKeys_eq, ?_, ?_⟩
      · rw [run.lefts, if_pos ⟨eof, nothing⟩]
        exact through
      · rw [if_pos eof, setLoadedKeys, if_neg nothing]
        refine ⟨ready.step (fun _ => before) step, fun ok => ?_⟩
        refine rdrandSetAesKeys_keyed ?_
        by_contra refused
        simp only at ok
        rw [if_neg refused] at ok
        cases ok
  · refine ⟨_, Heap.empty, run.loadKeys_eq, ?_, ?_⟩
    · rw [run.lefts, if_neg (fun both => eof both.1)]
      rfl
    · rw [if_neg eof]
      exact ⟨ready, fun ok => absurd ok run.leaves.notOk⟩

/-- With keys that are too short, the cipher reads beyond a string. -/
theorem loadKeysMemory_lefts_misuse
    (malloc : ∀ call, ssl.mallocOk call = true)
    (unset : state.cfg.keys.keys.identity = none)
    (short : KeyFileText 8 contents) :
    MemoryBlocks.run
        (lefts (loadKeysMemory ssl heap locks contents state))
        Heap.empty = none := by
  obtain ⟨count, next, failure, load, run⟩ :=
    loadKeys_run ssl heap contents state
  obtain ⟨eof, some, eight, _⟩ := (run.text_iff heap malloc 8).mp short
  have before : load.aes.cfg.keys.keys.identity = none := by
    rw [run.cfg]
    exact unset
  rw [run.lefts, if_pos ⟨eof, some⟩, eight]
  exact
    rdrandSetAesKeys_overruns malloc (keysReady_unset before).held some

end KeyFile

section Run

variable
  {world : World}
  {locks : MemoryLocks}

/-- What setting the keys does to the library. -/
structure KeysSettled
    (config : Cnf)
    (set : KeysSet)
    (final : Heap Block) : Prop where
  ready : KeysReady set.aes final
  keyed :
    set.complaint = none →
    config.aesFlag = true →
    set.aes.cfg.keys.keys.identity ≠ none
  plain :
    config.aesFlag = false → set.aes.cfg.keys.keys.identity = none

/-- The keys are set within the memory, unless they are too short. -/
theorem World.setKeysMemory_lefts
    (malloc : ∀ call, world.ssl.mallocOk call = true)
    {config : Cnf}
    (fits :
      ∀ name contents,
        config.aeskeysFilename = some name →
        world.keyFile config.outputFilename name = some contents →
        ¬ KeyFileText 8 contents) :
    ∃ set final,
      world.setKeys config = some set ∧
        run (lefts (world.setKeysMemory locks config)) Heap.empty =
          some final ∧
        KeysSettled config set final := by
  have unset : aesStart.cfg.keys.keys.identity = none :=
    rfl
  unfold World.setKeys World.setKeysMemory
  by_cases flag : config.aesFlag = true
  · rw [if_pos flag, if_pos flag]
    have encrypts : ¬ config.aesFlag = false := by
      rw [flag]
      exact Bool.noConfusion
    cases keysName : config.aeskeysFilename with
    | none =>
        obtain ⟨final, through, step⟩ :=
          @rdrandSetAesRandomKey_memory world.ssl locks aesStart
            Heap.empty malloc (keysReady_unset unset).held
            keysLong_start
        refine ⟨_, final, rfl, ?_, ?_, ?_, ?_⟩
        · simp only [lefts_inLeft]
          exact through
        · exact (keysReady_unset unset).step (fun _ => unset) step
        · exact fun _ _ => rdrandSetAesRandomKey_keyed malloc aesStart
        · exact fun off => absurd off encrypts
    | some name =>
        simp only
        cases found : world.keyFile config.outputFilename name with
        | none =>
            exact
              ⟨_, Heap.empty, rfl, rfl, keysReady_unset unset,
                fun complained =>
                  absurd complained (Option.some_ne_none _),
                fun _ => unset⟩
        | some contents =>
            obtain ⟨loaded, final, read, through, ready, keyed⟩ :=
              @loadKeysMemory_lefts_run world.ssl world.heap locks
                contents aesStart malloc unset
                (fits name contents keysName found)
            simp only [read, Option.map_some]
            refine ⟨_, final, rfl, through, ready, ?_, ?_⟩
            · intro settled _
              have notEof := loadKeys_notEof world.heap malloc read
              exact
                keyed ((loadComplaint_eq_none_iff notEof).mp settled)
            · exact fun off => absurd off encrypts
  · rw [if_neg flag, if_neg flag]
    exact
      ⟨_, Heap.empty, rfl, rfl, keysReady_unset unset,
        fun _ on => absurd on flag, fun _ => unset⟩

/-- What follows the setting of the keys misuses no block of the library. -/
theorem World.generateAndCleanMemory_run
    (munlock : ∀ block, locks.munlockOk block = true)
    {config : Cnf}
    {aes : AesState}
    {memory : Heap Block}
    (ready : KeysReady aes memory)
    (keyed :
      config.aesFlag = true → aes.cfg.keys.keys.identity ≠ none)
    (plain :
      config.aesFlag = false → aes.cfg.keys.keys.identity = none)
    (passes : Nat) :
    ∃ final,
      run (world.generateAndCleanMemory locks config aes passes)
          memory = some final ∧
        (world.generateAndClean config aes passes ≠ none →
          ∀ block, (final block).isLive = false) := by
  obtain ⟨later, recorded, ended⟩ :=
    generate_records world.env world.ssl config aes passes
  unfold World.generateAndCleanMemory World.generateAndClean
  by_cases flag : config.aesFlag = true
  · obtain ⟨middle, through, encrypted⟩ :=
      buffersMemory_run
        (encryptedBuffers
          (generateTrace world.env (rdrandEncBufferCells world.ssl)
            config aes passes))
        ready (keyed flag)
    rw [← recorded.aes] at encrypted
    rw [run_append, through, Option.bind_some]
    cases status :
        generate world.env (rdrandEncBufferCells world.ssl) config aes
          passes with
    | none =>
        exact ⟨middle, rfl, fun ends => absurd rfl ends⟩
    | some generated =>
        have same :
            later = generateAes world.env world.ssl config aes passes :=
          ended (by
            rw [status]
            exact Option.some_ne_none generated)
        rw [same] at encrypted
        obtain ⟨final, freed, step⟩ :=
          rdrandCleanAes_memory munlock encrypted.held
        simp only
        rw [if_pos flag]
        refine ⟨final, freed, fun _ => ?_⟩
        exact
          ((encrypted.step (fun no => no.elim) step).noLeak).idle
            (rdrandCleanAes_none _)
  · have off : config.aesFlag = false :=
      Bool.eq_false_of_not_eq_true flag
    rw [recorded.plain off, if_neg flag]
    refine ⟨memory, ?_, fun _ => ready.noLeak.idle (plain off)⟩
    cases
        generate world.env (rdrandEncBufferCells world.ssl) config aes
          passes with
    | none =>
        rfl
    | some generated =>
        rfl

/-- The blocks of the library, once the output is open. -/
theorem World.withOutputMemory_lefts
    (malloc : ∀ call, world.ssl.mallocOk call = true)
    (munlock : ∀ block, locks.munlockOk block = true)
    {config : Cnf}
    (fits :
      ∀ name contents,
        config.aeskeysFilename = some name →
        world.keyFile config.outputFilename name = some contents →
        ¬ KeyFileText 8 contents)
    (passes : Nat) :
    ∃ final,
      run (lefts (world.withOutputMemory locks config passes))
          Heap.empty = some final ∧
        ∀ exit,
          world.withOutput config passes = some exit →
          exit.code = .success →
          ∀ block, (final block).isLive = false := by
  obtain ⟨set, middle, setKeys, through, settled⟩ :=
    World.setKeysMemory_lefts malloc fits
  unfold World.withOutputMemory World.withOutput
  simp only [lefts_append, lefts_inLeft]
  rw [setKeys, run_append, through, Option.bind_some]
  unfold World.settledMemory
  simp only
  cases complaint : set.complaint with
  | some message =>
      refine ⟨middle, rfl, ?_⟩
      rintro _ ⟨⟩ success
      cases success
  | none =>
      simp only
      split
      · obtain ⟨final, later, idle⟩ :=
          World.generateAndCleanMemory_run munlock settled.ready
            (settled.keyed complaint) settled.plain passes
        refine ⟨final, later, fun exit ends _ => idle ?_⟩
        rw [ends]
        exact Option.some_ne_none exit
      · refine ⟨middle, rfl, ?_⟩
        rintro _ ⟨⟩ success
        cases success

/-- The program succeeds only if the keys could be set. -/
theorem World.withOutput_settled
    {config : Cnf}
    {passes : Nat}
    {exit : Exit}
    (ends : world.withOutput config passes = some exit)
    (success : exit.code = .success) :
    ∃ set, world.setKeys config = some set ∧ set.complaint = none := by
  unfold World.withOutput at ends
  split at ends
  · cases ends
  · next set setKeys =>
      refine ⟨set, setKeys, ?_⟩
      split at ends
      · cases ends
        cases success
      · next settled =>
          exact settled

/-- The keys of a file are set only if it is loaded. -/
theorem World.setKeys_loaded
    (malloc : ∀ call, world.ssl.mallocOk call = true)
    {config : Cnf}
    {name : String}
    {contents : List Char}
    (flag : config.aesFlag = true)
    (keysName : config.aeskeysFilename = some name)
    (found : world.keyFile config.outputFilename name = some contents)
    {set : KeysSet}
    (setKeys : world.setKeys config = some set)
    (settled : set.complaint = none) :
    ∃ loaded,
      loadKeys world.ssl world.heap contents aesStart = some loaded ∧
        loaded.result = .ok := by
  unfold World.setKeys at setKeys
  rw [if_pos flag, keysName] at setKeys
  simp only [found] at setKeys
  obtain ⟨loaded, read, rfl⟩ := Option.map_eq_some_iff.mp setKeys
  have notEof := loadKeys_notEof world.heap malloc read
  exact ⟨loaded, read, (loadComplaint_eq_none_iff notEof).mp settled⟩

/-- A string of an empty line of the key file that is read, if one is. -/
def World.OfEmptyLine (world : World) (config : Cnf) (call : Nat) : Prop :=
  config.aesFlag = true ∧
    ∃ name contents,
      config.aeskeysFilename = some name ∧
        world.keyFile config.outputFilename name = some contents ∧
        RdRand.OfEmptyLine contents call

/-- Where no key file is read, there are no strings of lines. -/
theorem World.linesFreed_unread
    {config : Cnf}
    (unread :
      ∀ name contents,
        config.aesFlag = true →
        config.aeskeysFilename = some name →
        world.keyFile config.outputFilename name ≠ some contents) :
    LinesFreed (world.OfEmptyLine config) Heap.empty := by
  refine linesFreed_nothing ?_
  rintro call ⟨flag, name, contents, keysName, found, _⟩
  exact unread name contents flag keysName found

/-- The blocks of `load_keys`, once the output is open. -/
theorem World.withOutputMemory_rights
    (malloc : ∀ call, world.ssl.mallocOk call = true)
    {config : Cnf}
    (fits :
      ∀ name contents,
        config.aeskeysFilename = some name →
        world.keyFile config.outputFilename name = some contents →
        (loadStart contents aesStart).PassesFit world.ssl world.heap
          (contents.length + 1))
    (passes : Nat) :
    ∃ final,
      run (rights (world.withOutputMemory locks config passes))
          Heap.empty = some final ∧
        ∀ exit,
          world.withOutput config passes = some exit →
          exit.code = .success →
          LinesFreed (world.OfEmptyLine config) final := by
  unfold World.withOutputMemory
  simp only [rights_append, rights_inLeft, List.append_nil]
  unfold World.setKeysMemory
  by_cases flag : config.aesFlag = true
  · rw [if_pos flag]
    cases keysName : config.aeskeysFilename with
    | none =>
        simp only [rights_inLeft]
        refine ⟨Heap.empty, rfl, fun _ _ _ => World.linesFreed_unread ?_⟩
        intro name contents _ named
        rw [keysName] at named
        cases named
    | some name =>
        simp only
        cases found : world.keyFile config.outputFilename name with
        | none =>
            refine
              ⟨Heap.empty, rfl, fun _ _ _ => World.linesFreed_unread ?_⟩
            intro other contents _ named read
            rw [keysName] at named
            cases named
            rw [found] at read
            cases read
        | some contents =>
            obtain ⟨final, through, freed⟩ :=
              @loadKeysMemory_rights_text world.ssl malloc world.heap
                locks contents (fits name contents keysName found)
            refine ⟨final, through, fun exit ends success => ?_⟩
            obtain ⟨set, setKeys, settled⟩ :=
              World.withOutput_settled ends success
            obtain ⟨loaded, read, ok⟩ :=
              World.setKeys_loaded malloc flag keysName found setKeys
                settled
            have same :
                RdRand.OfEmptyLine contents =
                  world.OfEmptyLine config := by
              funext call
              refine propext ⟨?_, ?_⟩
              · exact fun isEmpty =>
                  ⟨flag, name, contents, keysName, found, isEmpty⟩
              · rintro ⟨_, other, others, named, otherFound, isEmpty⟩
                rw [keysName] at named
                cases named
                rw [found] at otherFound
                cases otherFound
                exact isEmpty
            exact same ▸ freed loaded read ok
  · rw [if_neg flag]
    refine ⟨Heap.empty, rfl, fun _ _ _ => World.linesFreed_unread ?_⟩
    exact fun _ _ on => absurd on flag

/-- A key file that does not fit makes the program misuse a block. -/
theorem World.withOutputMemory_misuse
    (malloc : ∀ call, world.ssl.mallocOk call = true)
    {config : Cnf}
    {name : String}
    {contents : List Char}
    (flag : config.aesFlag = true)
    (keysName : config.aeskeysFilename = some name)
    (found : world.keyFile config.outputFilename name = some contents)
    (unfit : ¬ KeyFileFits contents)
    (passes : Nat) :
    run (world.withOutputMemory locks config passes) Heap.empty =
      none := by
  have memory :
      world.setKeysMemory locks config =
        loadKeysMemory world.ssl world.heap locks contents aesStart := by
    unfold World.setKeysMemory
    rw [if_pos flag, keysName]
    simp only [found]
  have stuck :
      run (loadKeysMemory world.ssl world.heap locks contents aesStart)
          Heap.empty =
        none := by
    by_contra through
    obtain ⟨final, through⟩ := Option.ne_none_iff_exists'.mp through
    obtain ⟨left, right⟩ := (run_parts _ _ _).mp through
    rw [keyFileFits_iff malloc world.heap contents aesStart, not_and_or]
      at unfit
    rcases unfit with unfit | short
    · have misuse :=
        @loadKeysMemory_rights_misuse world.ssl world.heap locks contents
          aesStart malloc unfit
      exact absurd (misuse.symm.trans right) (Option.some_ne_none _).symm
    · have misuse :=
        @loadKeysMemory_lefts_misuse world.ssl world.heap locks contents
          aesStart malloc rfl (not_not.mp short)
      exact absurd (misuse.symm.trans left) (Option.some_ne_none _).symm
  unfold World.withOutputMemory
  rw [memory, run_append, stuck]
  rfl

/-- A program that gets as far as setting the keys. -/
theorem World.SetsKeys.main_eq
    (sets : world.SetsKeys)
    (locks : MemoryLocks)
    (passes : Nat) :
    world.main passes =
        world.withOutput (computeChunkSize world.request) passes ∧
      world.mainMemory locks passes =
        world.withOutputMemory locks (computeChunkSize world.request)
          passes := by
  have same := computeChunkSize_sameRequest world.request
  have noHelp : (computeChunkSize world.request).helpFlag = false :=
    same.helpFlag.trans sets.generates.1
  have noVersion :
      (computeChunkSize world.request).versionFlag = false :=
    same.versionFlag.trans sets.generates.2
  unfold World.main World.mainMemory
  rw [world.parseArgs_request sets.accepted]
  simp only [noHelp, noVersion, Bool.false_eq_true, if_false]
  unfold World.openAndRun World.openAndRunMemory
  rw [same.outputFilename]
  cases requested : world.request.outputFilename with
  | none =>
      exact ⟨rfl, rfl⟩
  | some name =>
      have opens := sets.opened name requested
      simp only
      rw [if_pos opens, if_pos opens]
      exact ⟨rfl, rfl⟩

/-- A program that does not get so far uses no memory. -/
theorem World.mainMemory_idle
    (idle : ¬ world.SetsKeys)
    (locks : MemoryLocks)
    (passes : Nat) :
    world.mainMemory locks passes = [] := by
  have law :=
    optionsLaw_parseArgs world.libc world.errno world.arguments
  have same := computeChunkSize_sameRequest world.request
  unfold World.mainMemory
  split
  · rfl
  · next config parsed =>
      rw [parsed] at law
      have requested : config = computeChunkSize world.request :=
        law.configuration rfl
      have accepted := law.accepted.mp rfl
      rw [requested, same.helpFlag, same.versionFlag]
      split
      · rfl
      · next noHelp =>
          split
          · rfl
          · next noVersion =>
              have generates : world.Generates :=
                ⟨Bool.eq_false_of_not_eq_true noHelp,
                  Bool.eq_false_of_not_eq_true noVersion⟩
              have refused :
                  ¬ ∀ name ∈ world.request.outputFilename,
                    world.opensOutput name = true :=
                fun opened => idle ⟨accepted, generates, opened⟩
              unfold World.openAndRunMemory
              rw [same.outputFilename]
              cases output : world.request.outputFilename with
              | none =>
                  rw [output] at refused
                  exact absurd nofun refused
              | some name =>
                  simp only
                  split
                  · next opens =>
                      refine absurd ?_ refused
                      rw [output]
                      rintro _ ⟨⟩
                      exact opens
                  · rfl

/-- A key file is read for encryption only. -/
theorem World.SetsKeys.aesFlag
    (sets : world.SetsKeys)
    {name : String}
    (keysName : world.request.aeskeysFilename = some name) :
    world.request.aesFlag = true := by
  obtain ⟨optarg, given⟩ :=
    (requested_aeskeysFilename world.arguments).mp
      (show world.request.aeskeysFilename ≠ none by
        rw [keysName]
        exact Option.some_ne_none name)
  exact
    (requested_aesFlag world.arguments).mpr
      (sets.accepted.paired optarg given)

/-- A program whose key file fits misuses no block, and clears its keys. -/
theorem World.SetsKeys.withOutputMemory_run
    (sets : world.SetsKeys)
    (malloc : ∀ call, world.ssl.mallocOk call = true)
    (munlock : ∀ block, locks.munlockOk block = true)
    (fits :
      ∀ contents, world.ReadsKeys contents → KeyFileFits contents)
    (passes : Nat) :
    ∃ left right,
      run
            (lefts
              (world.withOutputMemory locks
                (computeChunkSize world.request) passes))
            Heap.empty = some left ∧
        run
            (rights
              (world.withOutputMemory locks
                (computeChunkSize world.request) passes))
            Heap.empty = some right ∧
        ∀ exit,
          world.withOutput (computeChunkSize world.request) passes =
              some exit →
          exit.code = .success →
          (∀ block, (left block).isLive = false) ∧
            LinesFreed
              (world.OfEmptyLine (computeChunkSize world.request))
              right := by
  have same := computeChunkSize_sameRequest world.request
  have reads :
      ∀ name contents,
        (computeChunkSize world.request).aeskeysFilename = some name →
        world.keyFile (computeChunkSize world.request).outputFilename
            name = some contents →
        (loadStart contents aesStart).PassesFit world.ssl world.heap
            (contents.length + 1) ∧
          ¬ KeyFileText 8 contents := by
    intro name contents keysName found
    rw [same.aeskeysFilename] at keysName
    rw [same.outputFilename] at found
    rw [← keyFileFits_iff malloc]
    exact fits contents ⟨sets, name, keysName, found⟩
  obtain ⟨left, throughLeft, idle⟩ :=
    World.withOutputMemory_lefts malloc munlock
      (fun name contents keysName found =>
        (reads name contents keysName found).2)
      passes
  obtain ⟨right, throughRight, blank⟩ :=
    @World.withOutputMemory_rights world locks malloc
      (computeChunkSize world.request)
      (fun name contents keysName found =>
        (reads name contents keysName found).1)
      passes
  exact
    ⟨left, right, throughLeft, throughRight,
      fun exit ends success =>
        ⟨idle exit ends success, blank exit ends success⟩⟩

/-- A run that misuses no block has read no key file but one that fits. -/
theorem World.SetsKeys.fits_of_run
    (sets : world.SetsKeys)
    (malloc : ∀ call, world.ssl.mallocOk call = true)
    {passes : Nat}
    {final : Heap (Block ⊕ LoadBlock)}
    (through :
      run
          (world.withOutputMemory locks (computeChunkSize world.request)
            passes)
          Heap.empty =
        some final) :
    ∀ contents, world.ReadsKeys contents → KeyFileFits contents := by
  rintro contents ⟨_, name, keysName, found⟩
  by_contra unfit
  have same := computeChunkSize_sameRequest world.request
  have stuck :=
    @World.withOutputMemory_misuse world locks malloc
      (computeChunkSize world.request) name contents
      (same.aesFlag.trans (sets.aesFlag keysName))
      (same.aeskeysFilename.trans keysName)
      (by
        rw [same.outputFilename]
        exact found)
      unfit passes
  rw [stuck] at through
  cases through

/-- The empty lines of the key file that the program reads. -/
theorem World.SetsKeys.ofEmptyLine_iff
    (sets : world.SetsKeys)
    (call : Nat) :
    world.OfEmptyLine (computeChunkSize world.request) call ↔
      ∃ contents,
        world.ReadsKeys contents ∧ RdRand.OfEmptyLine contents call := by
  have same := computeChunkSize_sameRequest world.request
  unfold World.OfEmptyLine
  rw [same.aesFlag, same.aeskeysFilename, same.outputFilename]
  constructor
  · rintro ⟨_, name, contents, keysName, found, isEmpty⟩
    exact ⟨contents, ⟨sets, name, keysName, found⟩, isEmpty⟩
  · rintro ⟨contents, ⟨_, name, keysName, found⟩, isEmpty⟩
    exact
      ⟨sets.aesFlag keysName, name, contents, keysName, found, isEmpty⟩

end Run

/--
Where `malloc` and `munlock` succeed, a run of the program misuses no block of
the memory of its keys, on the heap or on the stack of `load_keys`, exactly if
the key file that it reads fits: as long as it runs, and however it ends.
-/
theorem main_memory_iff
    {world : World}
    {locks : MemoryLocks}
    (malloc : ∀ call, world.ssl.mallocOk call = true)
    (munlock : ∀ block, locks.munlockOk block = true)
    (passes : Nat) :
    (∃ final,
      run (world.mainMemory locks passes) Heap.empty = some final) ↔
      ∀ contents, world.ReadsKeys contents → KeyFileFits contents := by
  by_cases sets : world.SetsKeys
  · rw [(sets.main_eq locks passes).2]
    constructor
    · rintro ⟨final, through⟩
      exact sets.fits_of_run malloc through
    · intro fits
      obtain ⟨left, right, throughLeft, throughRight, _⟩ :=
        sets.withOutputMemory_run malloc munlock fits passes
      exact
        (run_parts_iff _ _).mpr
          ⟨⟨left, throughLeft⟩, ⟨right, throughRight⟩⟩
  · rw [World.mainMemory_idle sets]
    exact
      iff_of_true ⟨Heap.empty, rfl⟩
        fun contents reads => absurd reads.1 sets

/-- An empty line, and one with a key of sixteen bytes and its nonce. -/
def emptyAndKey : List Char :=
  '\n' :: (List.replicate 48 'a' ++ ['\n'])

/-- Thirty-two bytes, encrypted with a key from a file. -/
def World.keyed : World :=
  { World.sample .sample [.amount "32", .aesCtr, .aesKeys "keys"] with
    keyFile := fun output _ =>
      if output = none then some emptyAndKey else none
    keyFile_opened := by
      intro name contents found
      simp at found }

/-- A file with one key fits, so that no block is misused. -/
theorem main_memory_iff_keyed :
    ∃ final,
      run (World.keyed.mainMemory .sample 4) Heap.empty =
        some final := by
  have lines :
      fileLines emptyAndKey = [[], List.replicate 48 'a'] := by
    decide
  have last : lastLine emptyAndKey = [] := by
    decide
  have fits : KeyFileFits emptyAndKey := by
    refine ⟨?_, ?_, ?_⟩
    · intro front line isPrefix _
      have member : line ∈ fileLines emptyAndKey ++ [lastLine emptyAndKey] :=
        isPrefix.subset (by simp)
      rw [lines, last] at member
      have few :
          ∀ line ∈ [[], List.replicate 48 'a'] ++ [[]],
            (line.takeWhile isHexDigit).length ≤
              2 * rdrandMaxKeyLength := by
        decide
      exact few line member
    · intro front isPrefix _
      refine Nat.le_trans (keyCount_mono isPrefix) ?_
      rw [lines]
      decide
    · intro text
      have digits :=
        (text.lines (List.replicate 48 'a') (by simp [lines])).resolve_left
          (by decide)
      exact absurd digits.spans (by decide)
  refine (main_memory_iff (fun _ => rfl) (fun _ => rfl) 4).mpr ?_
  rintro contents ⟨_, name, _, found⟩
  have printed : World.keyed.request.outputFilename = none :=
    rfl
  rw [printed] at found
  cases found
  exact fits

/--
No key is left on the heap: what is allocated there are two strings for each
empty line of the key file, and nothing was ever written to them.
-/
structure KeysCleared
    (world : World)
    (final : Heap (Block ⊕ LoadBlock)) : Prop where
  library : ∀ block, (final (.inl block)).isLive = false
  lines :
    LinesFreed
      (fun call =>
        ∃ contents,
          world.ReadsKeys contents ∧ OfEmptyLine contents call)
      (final ∘ .inr)

/-- When the program succeeds, it leaves no key on the heap. -/
theorem main_clears
    {world : World}
    {locks : MemoryLocks}
    (malloc : ∀ call, world.ssl.mallocOk call = true)
    (munlock : ∀ block, locks.munlockOk block = true)
    {passes : Nat}
    {exit : Exit}
    (ends : world.main passes = some exit)
    (success : exit.code = .success)
    {final : Heap (Block ⊕ LoadBlock)}
    (through :
      run (world.mainMemory locks passes) Heap.empty = some final) :
    KeysCleared world final := by
  by_cases sets : world.SetsKeys
  · obtain ⟨main, memory⟩ := sets.main_eq locks passes
    rw [main] at ends
    rw [memory] at through
    obtain ⟨left, right, throughLeft, throughRight, cleared⟩ :=
      sets.withOutputMemory_run malloc munlock
        (sets.fits_of_run malloc through) passes
    obtain ⟨idle, freed⟩ := cleared exit ends success
    obtain ⟨sameLeft, sameRight⟩ := (run_parts _ _ _).mp through
    have leftEq : final ∘ .inl = left :=
      Option.some.inj (sameLeft.symm.trans throughLeft)
    have rightEq : final ∘ .inr = right :=
      Option.some.inj (sameRight.symm.trans throughRight)
    refine ⟨fun block => ?_, ?_⟩
    · rw [← idle block, ← leftEq]
      rfl
    · rw [rightEq]
      exact
        { live := fun call =>
            (freed.live call).trans (sets.ofEmptyLine_iff call)
          blank := fun call isEmpty =>
            freed.blank call ((sets.ofEmptyLine_iff call).mpr isEmpty) }
  · rw [World.mainMemory_idle sets] at through
    cases through
    refine ⟨fun _ => rfl, linesFreed_nothing ?_⟩
    rintro call ⟨contents, reads, _⟩
    exact sets reads.1

/-- The key is cleared, and the strings of the empty line are left. -/
theorem main_clears_keyed :
    ∃ exit final,
      World.keyed.main 4 = some exit ∧
        run (World.keyed.mainMemory .sample 4) Heap.empty =
          some final ∧
        KeysCleared World.keyed final ∧
        (final (.inr (.line 0))).isLive = true := by
  have observed :
      (World.keyed.main 4).map Exit.code = some .success := by
    decide +kernel
  have gotThrough :
      (run (World.keyed.mainMemory .sample 4) Heap.empty).map
          (fun final => (final (.inr (.line 0))).isLive) =
        some true := by
    decide +kernel
  obtain ⟨exit, ends, success⟩ := Option.map_eq_some_iff.mp observed
  obtain ⟨final, through, live⟩ :=
    Option.map_eq_some_iff.mp gotThrough
  exact
    ⟨exit, final, ends, through,
      main_clears (fun _ => rfl) (fun _ => rfl) ends success through,
      live⟩

end RdRand
