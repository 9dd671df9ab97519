import RdRand.ArrayOverrun
import RdRand.ProgramMemory

namespace RdRand

/-!
# The process of the program

A process runs on, exits, or stores outside of an array of its own, and then
nothing can be told about it.  It does so while it loads a key file that does
not fit, or while it generates, in the slow path on a device that fails.
-/

open ControlLoop MemoryBlocks

/-- What becomes of a process. -/
inductive ProcessOutcome where
  | running
  | overruns
  | exits (exit : Exit)

namespace World

variable (world : World)

/-- What `main` calls `generate` with, where it gets there. -/
def generateCall : Option (Cnf × AesState) :=
  match
    parseArgs world.libc world.errno world.arguments
      defaultConfigSetting with
  | (.failure, _) => none
  | (.success, config) =>
      if config.helpFlag = true ∨ config.versionFlag = true then
        none
      else if config.outputFilename.all world.opensOutput = true then
        match world.setKeys config with
        | none => none
        | some set =>
            if set.complaint = none ∧
                rdrandTestSupport world.features = rdrandSupported then
              some (config, set.aes)
            else
              none
      else
        none

variable (locks : MemoryLocks)

/-- `load_keys` misuses a block of its own, or `generate` overruns an array. -/
def overruns (passes : Nat) : Bool :=
  (run (rights (world.mainMemory locks passes)) Heap.empty).isNone ||
    world.generateCall.any fun (config, aes) =>
      generateOverruns world.env (rdrandEncBufferCells world.ssl) config
        aes passes

/-- The process, where the chunk loop makes at most so many passes. -/
def process (passes : Nat) : ProcessOutcome :=
  if world.overruns locks passes then
    .overruns
  else
    match world.main passes with
    | none => .running
    | some exit => .exits exit

/-- Why a process stores outside of its arrays. -/
inductive OverrunCause (passes : Nat) : Prop where
  | keyFile
      {contents : List Char}
      (read : world.ReadsKeys contents)
      (unfit : ¬ KeyFileFits contents)
  | slowPath
      {config : Cnf}
      {aes : AesState}
      {earlier : Nat}
      {state : ChunkState AesState}
      (served : world.Served)
      (called : world.generateCall = some (config, aes))
      (within : earlier < passes)
      (reached :
        generateChunk world.env (rdrandEncBufferCells world.ssl) config
            aes earlier =
          .running state)
      (unrecoverable :
        ¬ Recoverable world.env (rdrandEncBufferCells world.ssl) state)
      (fails : ¬ world.env.device.NeverFails)

/--
What holds of a process: if it exits, it does as it should, and it runs on or
overruns only where it is to generate, with a cause for the latter.
-/
structure ProcessLaw (passes : Nat) (outcome : ProcessOutcome) : Prop where
  exits : ∀ exit, outcome = .exits exit → world.ExitLaw exit
  runs :
    outcome = .running →
    Acceptable world.libc world.errno world.arguments ∧
      world.Generates ∧
      world.Served
  overruns :
    outcome = .overruns →
    Acceptable world.libc world.errno world.arguments ∧
      world.Generates ∧
      world.OverrunCause passes

end World

section Process

variable {world : World} {locks : MemoryLocks}

/-- A process that exits has run `main` to its end. -/
theorem World.main_of_exits
    {passes : Nat}
    {exit : Exit}
    (exits : world.process locks passes = .exits exit) :
    world.main passes = some exit := by
  unfold World.process at exits
  split at exits
  · cases exits
  · split at exits
    · cases exits
    · next ends =>
        cases exits
        exact ends

/-- What `main` has made sure of when it calls `generate`. -/
structure World.Called (world : World) (config : Cnf) : Prop where
  accepted : Acceptable world.libc world.errno world.arguments
  generates : world.Generates
  served : world.Served
  split : config.Split
  realMethod : config.method ≠ .methodsCount

/-- `generate` is called for a request that is served. -/
theorem World.generateCall_called
    (malloc : ∀ call, world.ssl.mallocOk call = true)
    {config : Cnf}
    {aes : AesState}
    (called : world.generateCall = some (config, aes)) :
    world.Called config := by
  have law :=
    optionsLaw_parseArgs world.libc world.errno world.arguments
  have same := computeChunkSize_sameRequest world.request
  unfold World.generateCall at called
  split at called
  · cases called
  · next parsedConfig parsed =>
      rw [parsed] at law
      have accepted := law.accepted.mp rfl
      have requested : parsedConfig = computeChunkSize world.request :=
        law.configuration rfl
      obtain ⟨split, realMethod⟩ := parseArgs_split parsed
      subst requested
      split at called
      · cases called
      · next asked =>
          rw [not_or, Bool.not_eq_true, Bool.not_eq_true, same.helpFlag,
            same.versionFlag] at asked
          split at called
          · next opens =>
              obtain ⟨set, setKeys, usable, _⟩ :=
                world.setKeys_usable malloc accepted
              rw [setKeys] at called
              simp only at called
              split at called
              · next settled =>
                  cases called
                  rw [same.outputFilename, Option.all_eq_true] at opens
                  exact
                    { accepted := accepted
                      generates := asked
                      served :=
                        { output := opens
                          keys := usable.mp settled.1
                          processor := settled.2 }
                      split := split
                      realMethod := realMethod }
              · cases called
          · cases called

/-- Loading a key file that fits misuses no block. -/
theorem World.rights_mainMemory_run
    (malloc : ∀ call, world.ssl.mallocOk call = true)
    (fits :
      ∀ contents, world.ReadsKeys contents → KeyFileFits contents)
    (passes : Nat) :
    (run (rights (world.mainMemory locks passes)) Heap.empty).isNone =
      false := by
  by_cases sets : world.SetsKeys
  · have same := computeChunkSize_sameRequest world.request
    obtain ⟨right, through, _⟩ :=
      @World.withOutputMemory_rights world locks malloc
        (computeChunkSize world.request)
        (by
          intro name contents keysName found
          rw [same.aeskeysFilename] at keysName
          rw [same.outputFilename] at found
          have fit := fits contents ⟨sets, name, keysName, found⟩
          exact
            ((keyFileFits_iff malloc world.heap contents aesStart).mp
              fit).1)
        passes
    rw [(sets.main_eq locks passes).2, through]
    rfl
  · rw [World.mainMemory_idle sets]
    rfl

/-- A process overruns for a cause only. -/
theorem World.overruns_cause
    (malloc : ∀ call, world.ssl.mallocOk call = true)
    {passes : Nat}
    (overruns : world.overruns locks passes = true) :
    Acceptable world.libc world.errno world.arguments ∧
      world.Generates ∧
      world.OverrunCause passes := by
  by_cases fits :
      ∀ contents, world.ReadsKeys contents → KeyFileFits contents
  · rw [World.overruns, World.rights_mainMemory_run malloc fits,
      Bool.false_or, Option.any_eq_true_iff_get] at overruns
    obtain ⟨some, overruns⟩ := overruns
    obtain ⟨⟨config, aes⟩, called⟩ := Option.isSome_iff_exists.mp some
    simp only [called, Option.get_some] at overruns
    have call := World.generateCall_called malloc called
    obtain ⟨earlier, state, within, reached, unrecoverable⟩ :=
      generateOverruns_reached call.split.chunkBounded overruns
    refine
      ⟨call.accepted, call.generates,
        .slowPath call.served called within reached unrecoverable ?_⟩
    intro neverFails
    rw [generateOverruns_neverFails _ neverFails call.split
      call.realMethod] at overruns
    cases overruns
  · push Not at fits
    obtain ⟨contents, read, unfit⟩ := fits
    exact ⟨read.1.accepted, read.1.generates, .keyFile read unfit⟩

end Process

/--
Whatever the options, the files, the processor, the device and the libraries
other than `malloc` do, every process of the program keeps the law.
-/
theorem main_lawful
    {world : World}
    (malloc : ∀ call, world.ssl.mallocOk call = true)
    (locks : MemoryLocks)
    (passes : Nat) :
    world.ProcessLaw passes (world.process locks passes) := by
  have run := world.mainRun_lawful malloc passes
  unfold World.process
  split
  · next overruns =>
      refine ⟨?_, ?_, fun _ => World.overruns_cause malloc overruns⟩
      · rintro _ ⟨⟩
      · rintro ⟨⟩
  · split
    · next running =>
        refine ⟨?_, fun _ => run.runs running, ?_⟩
        · rintro _ ⟨⟩
        · rintro ⟨⟩
    · next ends =>
        refine ⟨?_, ?_, ?_⟩
        · rintro _ ⟨⟩
          exact run.ends _ ends
        · rintro ⟨⟩
        · rintro ⟨⟩

/-- A key file with a character that is no hexadecimal digit. -/
def World.foreign : World :=
  { World.sample .sample [.aesCtr, .amount "32", .aesKeys "keys"] with
    keyFile := fun output _ =>
      if output = none then some "12z4\n".toList else none
    keyFile_opened := by
      intro name contents found
      simp at found }

/-- The program prints the character, and exits with a message. -/
theorem main_lawful_foreign :
    ∃ exit,
      World.foreign.process .sample 3 = .exits exit ∧
        exit.code = .failure ∧
        exit.messages = [.notHexadecimal] ∧
        exit.printed = [.unknown 'z'] ∧
        World.foreign.ExitLaw exit :=
  ⟨_, rfl, rfl, rfl, rfl,
    (main_lawful (fun _ => rfl) .sample 3).exits _ rfl⟩

end RdRand
