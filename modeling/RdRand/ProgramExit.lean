import RdRand.KeyFileDiagnosis
import RdRand.Program

namespace RdRand

/-!
# How the program ends

What the program exits with is decided before it generates: by the options, by
whether the output can be opened, by the text of the key file, and by the
processor.  A failure is explained by one message, and nothing has been
written to the output then.
-/

namespace World

variable (world : World)

/-- The configuration that the options ask for. -/
def request : Cnf :=
  defaultConfigSetting.requested world.libc world.errno world.arguments

/-- The options ask for random bytes, and not for information. -/
def Generates : Prop :=
  world.request.helpFlag = false ∧ world.request.versionFlag = false

/-- The key file that is asked for can be read, and has keys in it. -/
def KeysUsable : Prop :=
  ∀ name ∈ world.request.aeskeysFilename,
    ∃ contents keyLen,
      world.keyFile world.request.outputFilename name = some contents ∧
        KeyFileText keyLen contents

/-- What the program needs in order to generate. -/
structure Served : Prop where
  output :
    ∀ name ∈ world.request.outputFilename, world.opensOutput name = true
  keys : world.KeysUsable
  processor : rdrandTestSupport world.features = rdrandSupported

/-- What is wrong, with the message that says so. -/
inductive Explains : Message → Prop where
  | option
      {argument : Argument}
      {message : Message}
      (given : argument ∈ world.arguments)
      (refused :
        argument.complaint world.libc world.errno = some message) :
      Explains message
  | unpaired
      {optarg : String}
      (given : .aesKeys optarg ∈ world.arguments)
      (plain : .aesCtr ∉ world.arguments) :
      Explains .keysWithoutAes
  | output
      {name : String}
      (requested : world.request.outputFilename = some name)
      (refused : world.opensOutput name = false) :
      Explains (.cannotOpen name)
  | noKeyFile
      {name : String}
      (requested : world.request.aeskeysFilename = some name)
      (missing : world.keyFile world.request.outputFilename name = none) :
      Explains (.cannotOpen name)
  | keyFile
      {name : String}
      {contents : List Char}
      {loaded : Loaded}
      {message : Message}
      (requested : world.request.aeskeysFilename = some name)
      (found :
        world.keyFile world.request.outputFilename name = some contents)
      (read :
        loadKeys world.ssl world.heap contents aesStart = some loaded)
      (refused : loadComplaint name loaded.result = some message) :
      Explains message
  | processor
      (missing : rdrandTestSupport world.features ≠ rdrandSupported) :
      Explains .noRdRand

/--
What is printed before a message: the first character of the key file that is
neither a hexadecimal digit nor a newline, if the message is about it.
-/
inductive Diagnoses : Message → List Printed → Prop where
  | unknown
      {name : String}
      {contents : List Char}
      {c : Char}
      (requested : world.request.aeskeysFilename = some name)
      (found :
        world.keyFile world.request.outputFilename name = some contents)
      (first : contents.find? isForeign = some c) :
      Diagnoses .notHexadecimal [.unknown c]
  | silent
      {message : Message}
      (other : message ≠ .notHexadecimal) :
      Diagnoses message []

/--
What an exit of the program means: it is a success where the options are
accepted and what they ask for is served, and a failure has one message that
explains it, and no output.
-/
structure ExitLaw (exit : Exit) : Prop where
  succeeds :
    exit.code = .success ↔
      Acceptable world.libc world.errno world.arguments ∧
        (world.Generates → world.Served)
  failed :
    exit.code = .failure →
    exit.output = [] ∧
      exit.released = [] ∧
      ∃ message,
        exit.messages = [message] ∧
          world.Explains message ∧
          world.Diagnoses message exit.printed
  created :
    ∀ name ∈ exit.created,
      world.request.outputFilename = some name ∧
        world.opensOutput name = true

/--
A run of the program is lawful: where it ends, it does as it should, and where
it does not, it generates.
-/
structure Lawful (result : Option Exit) : Prop where
  ends : ∀ exit ∈ result, world.ExitLaw exit
  runs :
    result = none →
    Acceptable world.libc world.errno world.arguments ∧
      world.Generates ∧
      world.Served

end World

section Complaints

variable {libc : LibC} {errno : Bool}

/-- An option is answered with a message exactly if it is refused. -/
theorem Argument.complaint_eq_none_iff
    (argument : Argument) :
    argument.complaint libc errno = none ↔
      argument.acceptable libc errno = true := by
  cases argument with
  | amount optarg =>
      simp only [Argument.complaint, Argument.acceptable]
      split
      · next accepted =>
          exact iff_of_true rfl accepted
      · next refused =>
          refine iff_of_false ?_ refused
          split
          · exact Option.some_ne_none _
          · exact Option.some_ne_none _
  | threads optarg =>
      simp only [Argument.complaint, Argument.acceptable]
      split
      · next accepted =>
          exact iff_of_true rfl accepted
      · next refused =>
          exact iff_of_false (Option.some_ne_none _) refused
  | method optarg =>
      simp only [Argument.complaint, Argument.acceptable,
        decide_eq_true_eq]
      split
      · next unknown =>
          exact
            iff_of_false (Option.some_ne_none _) (not_not.mpr unknown)
      · next known =>
          exact iff_of_true rfl known
  | unknown =>
      exact iff_of_false (Option.some_ne_none _) Bool.false_ne_true
  | _ =>
      exact iff_of_true rfl rfl

end Complaints

section Exits

variable {world : World}

/-- What `parse_args` prints explains why it fails. -/
theorem World.parseComplaint_explains
    (refused : ¬ Acceptable world.libc world.errno world.arguments) :
    world.Explains
      (parseComplaint world.libc world.errno world.arguments) := by
  unfold parseComplaint
  cases found :
      world.arguments.findSome?
        (Argument.complaint world.libc world.errno) with
  | some message =>
      obtain ⟨argument, given, complaint⟩ :=
        List.exists_of_findSome?_eq_some found
      exact .option given complaint
  | none =>
      have each :
          ∀ argument ∈ world.arguments,
            argument.acceptable world.libc world.errno = true := by
        intro argument given
        rw [← Argument.complaint_eq_none_iff]
        exact List.findSome?_eq_none_iff.mp found argument given
      by_contra unexplained
      refine refused ⟨each, fun optarg given => ?_⟩
      by_contra plain
      exact unexplained (.unpaired given plain)

/-- Only the chunk fields are computed from the others. -/
theorem computeChunkSize_frame (config : Cnf) :
    ∃ blocks chunkSize chunkCount endingBytes,
      computeChunkSize config =
        { config with
          blocks := blocks
          chunkSize := chunkSize
          chunkCount := chunkCount
          endingBytes := endingBytes } := by
  unfold computeChunkSize
  split
  · simp only
    split
    · exact ⟨_, _, _, _, rfl⟩
    · exact ⟨_, _, config.chunkCount, _, rfl⟩
  · exact ⟨config.blocks, _, config.chunkCount, config.endingBytes, rfl⟩

/-- What is requested, but for the chunks. -/
structure SameRequest (config request : Cnf) : Prop where
  aesFlag : config.aesFlag = request.aesFlag
  helpFlag : config.helpFlag = request.helpFlag
  versionFlag : config.versionFlag = request.versionFlag
  outputFilename : config.outputFilename = request.outputFilename
  aeskeysFilename : config.aeskeysFilename = request.aeskeysFilename

theorem computeChunkSize_sameRequest (config : Cnf) :
    SameRequest (computeChunkSize config) config := by
  obtain ⟨_, _, _, _, same⟩ := computeChunkSize_frame config
  rw [same]
  exact ⟨rfl, rfl, rfl, rfl, rfl⟩

/-- A result of `load_keys` is answered with a message unless it is `E_OK`. -/
theorem loadComplaint_eq_none_iff
    {name : String}
    {result : FileError}
    (notEof : result ≠ .eof) :
    loadComplaint name result = none ↔ result = .ok := by
  cases result with
  | ok =>
      exact iff_of_true rfl rfl
  | eof =>
      exact absurd rfl notEof
  | _ =>
      exact iff_of_false nofun nofun

/-- Setting the keys succeeds where the key file is usable. -/
theorem World.setKeys_usable
    (malloc : ∀ call, world.ssl.mallocOk call = true)
    (accepted : Acceptable world.libc world.errno world.arguments) :
    ∃ set,
      world.setKeys (computeChunkSize world.request) = some set ∧
        (set.complaint = none ↔ world.KeysUsable) ∧
        ∀ message ∈ set.complaint, world.Explains message := by
  obtain ⟨_, _, _, _, sameRequest⟩ :=
    computeChunkSize_frame world.request
  rw [sameRequest]
  unfold World.setKeys World.KeysUsable
  simp only
  cases keysName : world.request.aeskeysFilename with
  | none =>
      split
      · exact ⟨_, rfl, iff_of_true rfl nofun, nofun⟩
      · exact ⟨_, rfl, iff_of_true rfl nofun, nofun⟩
  | some name =>
      have encrypts : world.request.aesFlag = true := by
        obtain ⟨optarg, given⟩ :=
          (requested_aeskeysFilename world.arguments).mp
            (show world.request.aeskeysFilename ≠ none by
              rw [keysName]
              exact nofun)
        exact
          (requested_aesFlag world.arguments).mpr
            (accepted.paired optarg given)
      rw [if_pos encrypts]
      simp only [Option.mem_some_iff, forall_eq']
      cases found : world.keyFile world.request.outputFilename name with
      | none =>
          refine ⟨_, rfl, iff_of_false nofun ?_, ?_⟩
          · rintro ⟨_, _, contents, _⟩
            cases contents
          · rintro _ ⟨⟩
            exact .noKeyFile keysName found
      | some contents =>
          obtain ⟨loaded, read, ok⟩ :=
            loadKeys_ok_iff world.heap contents aesStart malloc
          have notEof := loadKeys_notEof world.heap malloc read
          simp only [read, Option.map_some]
          refine ⟨_, rfl, ?_, ?_⟩
          · rw [loadComplaint_eq_none_iff notEof, ok]
            constructor
            · rintro ⟨keyLen, text⟩
              exact ⟨contents, keyLen, rfl, text⟩
            · rintro ⟨_, keyLen, ⟨⟩, text⟩
              exact ⟨keyLen, text⟩
          · intro message refused
            exact .keyFile keysName found read refused

/-- Other complaints than about a character are about something else. -/
theorem Argument.complaint_ne_notHexadecimal
    {libc : LibC}
    {errno : Bool}
    {argument : Argument}
    {message : Message}
    (refused : argument.complaint libc errno = some message) :
    message ≠ .notHexadecimal := by
  rintro rfl
  unfold Argument.complaint at refused
  split at refused
  · split at refused
    · cases refused
    · simp only at refused
      split at refused
      · cases refused
      · cases refused
  · split at refused
    · cases refused
    · cases refused
  · split at refused
    · cases refused
    · cases refused
  · cases refused
  · cases refused

/-- `parse_args` does not read the key file. -/
theorem parseComplaint_ne_notHexadecimal
    (libc : LibC)
    (errno : Bool)
    (arguments : List Argument) :
    parseComplaint libc errno arguments ≠ .notHexadecimal := by
  unfold parseComplaint
  cases found :
      arguments.findSome? (Argument.complaint libc errno) with
  | some message =>
      obtain ⟨argument, _, refused⟩ :=
        List.exists_of_findSome?_eq_some found
      exact Argument.complaint_ne_notHexadecimal refused
  | none =>
      simp

/--
What setting the keys prints goes with its message, and where it ends in no
message it has printed nothing.
-/
theorem World.setKeys_diagnoses
    {set : KeysSet}
    (setKeys :
      world.setKeys (computeChunkSize world.request) = some set) :
    (∀ message ∈ set.complaint, world.Diagnoses message set.printed) ∧
      (set.complaint = none → set.printed = []) := by
  obtain ⟨_, _, _, _, sameRequest⟩ :=
    computeChunkSize_frame world.request
  rw [sameRequest] at setKeys
  unfold World.setKeys at setKeys
  simp only at setKeys
  split at setKeys
  · split at setKeys
    · next name requested =>
        split at setKeys
        · cases setKeys
          refine ⟨?_, fun _ => rfl⟩
          rintro _ ⟨⟩
          exact .silent (by simp)
        · next contents found =>
            obtain ⟨loaded, read, rfl⟩ :=
              Option.map_eq_some_iff.mp setKeys
            obtain ⟨reported, silent⟩ := loadKeys_unknown read
            simp only [loadComplaint]
            cases result : loaded.result with
            | keyInvalidCharacter =>
                obtain ⟨first, some⟩ := reported result
                obtain ⟨c, unknown⟩ := Option.isSome_iff_exists.mp some
                rw [unknown] at first ⊢
                refine ⟨?_, nofun⟩
                rintro _ ⟨⟩
                exact .unknown requested found first.symm
            | ok =>
                rw [silent (by simp [result])]
                exact ⟨nofun, fun _ => rfl⟩
            | eof =>
                rw [silent (by simp [result])]
                exact ⟨nofun, fun _ => rfl⟩
            | _ =>
                rw [silent (by simp [result])]
                refine ⟨?_, fun _ => rfl⟩
                rintro _ ⟨⟩
                exact .silent (by simp)
    · cases setKeys
      exact ⟨nofun, fun _ => rfl⟩
  · cases setKeys
    exact ⟨nofun, fun _ => rfl⟩

/-- Failing is lawful where something is wrong. -/
theorem World.Lawful.failure
    {message : Message}
    {printed : List Printed}
    {created : Option String}
    {aes : AesState}
    (unserved :
      ¬ (Acceptable world.libc world.errno world.arguments ∧
        (world.Generates → world.Served)))
    (explains : world.Explains message)
    (diagnoses : world.Diagnoses message printed)
    (opened :
      ∀ name ∈ created,
        world.request.outputFilename = some name ∧
          world.opensOutput name = true) :
    world.Lawful (some (.failure message printed created aes)) where
  ends := by
    rintro _ ⟨⟩
    exact
      { succeeds := iff_of_false nofun unserved
        failed := fun _ =>
          ⟨rfl, rfl, message, rfl, explains, diagnoses⟩
        created := opened }
  runs := nofun

/-- Printing some information is lawful where it is asked for. -/
theorem World.Lawful.information
    (accepted : Acceptable world.libc world.errno world.arguments)
    (asked : ¬ world.Generates)
    (printed : List Printed) :
    world.Lawful (some (.information printed)) where
  ends := by
    rintro _ ⟨⟩
    exact
      { succeeds :=
          iff_of_true rfl
            ⟨accepted, fun generates => absurd generates asked⟩
        failed := nofun
        created := nofun }
  runs := nofun

/-- Generating is lawful where everything is served. -/
theorem World.Lawful.generating
    (accepted : Acceptable world.libc world.errno world.arguments)
    (generates : world.Generates)
    (served : world.Served)
    {config : Cnf}
    (sameOutput : config.outputFilename = world.request.outputFilename)
    (aes : AesState)
    (passes : Nat) :
    world.Lawful (world.generateAndClean config aes passes) where
  ends exit ended := by
    obtain ⟨generated, _, rfl⟩ := Option.map_eq_some_iff.mp ended
    exact
      { succeeds := iff_of_true rfl ⟨accepted, fun _ => served⟩
        failed := nofun
        created := fun name created =>
          have requested : world.request.outputFilename = some name :=
            sameOutput.symm.trans created
          ⟨requested, served.output name requested⟩ }
  runs _ := ⟨accepted, generates, served⟩

/-- Once the output is open, the law depends on the keys and the processor. -/
theorem World.withOutput_lawful
    (malloc : ∀ call, world.ssl.mallocOk call = true)
    (accepted : Acceptable world.libc world.errno world.arguments)
    (generates : world.Generates)
    (opened :
      ∀ name ∈ world.request.outputFilename,
        world.opensOutput name = true)
    (passes : Nat) :
    world.Lawful
      (world.withOutput (computeChunkSize world.request) passes) := by
  obtain ⟨set, setKeys, usable, explains⟩ :=
    world.setKeys_usable malloc accepted
  have sameOutput :=
    (computeChunkSize_sameRequest world.request).outputFilename
  have created :
      ∀ name ∈ (computeChunkSize world.request).outputFilename,
        world.request.outputFilename = some name ∧
          world.opensOutput name = true := by
    rw [sameOutput]
    exact fun name requested => ⟨requested, opened name requested⟩
  unfold World.withOutput
  rw [setKeys]
  simp only
  obtain ⟨diagnosed, silent⟩ := world.setKeys_diagnoses setKeys
  cases complaint : set.complaint with
  | some message =>
      refine
        .failure ?_ (explains message complaint)
          (diagnosed message complaint) created
      rintro ⟨_, served⟩
      rw [usable.mpr (served generates).keys] at complaint
      cases complaint
  | none =>
      simp only
      split
      · next processor =>
          exact
            .generating accepted generates
              ⟨opened, usable.mp complaint, processor⟩ sameOutput _ _
      · next noProcessor =>
          exact
            .failure
              (fun both => noProcessor (both.2 generates).processor)
              (.processor noProcessor)
              (by
                rw [silent complaint]
                exact .silent (by simp))
              created

/-- A request for random bytes is answered lawfully. -/
theorem World.openAndRun_lawful
    (malloc : ∀ call, world.ssl.mallocOk call = true)
    (accepted : Acceptable world.libc world.errno world.arguments)
    (generates : world.Generates)
    (passes : Nat) :
    world.Lawful
      (world.openAndRun (computeChunkSize world.request) passes) := by
  have sameOutput :=
    (computeChunkSize_sameRequest world.request).outputFilename
  unfold World.openAndRun
  rw [sameOutput]
  cases requested : world.request.outputFilename with
  | none =>
      refine world.withOutput_lawful malloc accepted generates ?_ passes
      rw [requested]
      exact nofun
  | some name =>
      simp only
      split
      · next opens =>
          refine
            world.withOutput_lawful malloc accepted generates ?_ passes
          rw [requested]
          rintro _ ⟨⟩
          exact opens
      · next refused =>
          have closed := Bool.eq_false_of_not_eq_true refused
          refine
            .failure ?_ (.output requested closed) (.silent (by simp))
              nofun
          rintro ⟨_, served⟩
          exact refused ((served generates).output name requested)

/-- Options that are accepted make the configuration that they request. -/
theorem World.parseArgs_request
    (accepted : Acceptable world.libc world.errno world.arguments) :
    parseArgs world.libc world.errno world.arguments
        defaultConfigSetting =
      (.success, computeChunkSize world.request) :=
  have law :=
    optionsLaw_parseArgs world.libc world.errno world.arguments
  have success := law.accepted.mpr accepted
  Prod.ext success (law.configuration success)

/-- A request that is served gets to `generate`. -/
theorem World.main_served
    (accepted : Acceptable world.libc world.errno world.arguments)
    (generates : world.Generates)
    (opened :
      ∀ name ∈ world.request.outputFilename,
        world.opensOutput name = true)
    (processor : rdrandTestSupport world.features = rdrandSupported)
    {printed : List Printed}
    {aes : AesState}
    (setKeys :
      world.setKeys (computeChunkSize world.request) =
        some { complaint := none, printed := printed, aes := aes })
    (passes : Nat) :
    world.main passes =
      world.generateAndClean (computeChunkSize world.request) aes
        passes := by
  have same := computeChunkSize_sameRequest world.request
  have noHelp : (computeChunkSize world.request).helpFlag = false :=
    same.helpFlag.trans generates.1
  have noVersion :
      (computeChunkSize world.request).versionFlag = false :=
    same.versionFlag.trans generates.2
  have run :
      world.withOutput (computeChunkSize world.request) passes =
        world.generateAndClean (computeChunkSize world.request) aes
          passes := by
    unfold World.withOutput
    rw [setKeys]
    simp only
    rw [if_pos processor]
  unfold World.main
  rw [world.parseArgs_request accepted]
  simp only [noHelp, noVersion, Bool.false_eq_true, if_false]
  unfold World.openAndRun
  rw [same.outputFilename]
  cases requested : world.request.outputFilename with
  | none =>
      exact run
  | some name =>
      simp only
      rw [if_pos (opened name requested)]
      exact run

/-- How the program ends: before it generates, or after it. -/
inductive World.EndCase
    (world : World)
    (passes : Nat)
    (exit : Exit) : Prop where
  | failure
      (code : exit.code = .failure)
      (output : exit.output = [])
  | information
      (printed : List Printed)
      (told : exit = .information printed)
  | generates
      (set : KeysSet)
      (setKeys :
        world.setKeys (computeChunkSize world.request) = some set)
      (settled : set.complaint = none)
      (opened :
        ∀ name ∈ world.request.outputFilename,
          world.opensOutput name = true)
      (processor : rdrandTestSupport world.features = rdrandSupported)
      (ends :
        world.generateAndClean (computeChunkSize world.request) set.aes
          passes = some exit)

/-- The end of a program that has opened its output. -/
theorem World.withOutput_cases
    {passes : Nat}
    {exit : Exit}
    (opened :
      ∀ name ∈ world.request.outputFilename,
        world.opensOutput name = true)
    (ends :
      world.withOutput (computeChunkSize world.request) passes =
        some exit) :
    world.EndCase passes exit := by
  unfold World.withOutput at ends
  split at ends
  · cases ends
  · next set setKeys =>
      split at ends
      · cases ends
        exact .failure rfl rfl
      · next settled =>
          split at ends
          · next processor =>
              exact .generates set setKeys settled opened processor ends
          · cases ends
            exact .failure rfl rfl

/-- The end of a program that is to generate. -/
theorem World.openAndRun_cases
    {passes : Nat}
    {exit : Exit}
    (ends :
      world.openAndRun (computeChunkSize world.request) passes =
        some exit) :
    world.EndCase passes exit := by
  have sameOutput :=
    (computeChunkSize_sameRequest world.request).outputFilename
  unfold World.openAndRun at ends
  split at ends
  · next name requested =>
      rw [sameOutput] at requested
      split at ends
      · next opens =>
          refine world.withOutput_cases ?_ ends
          rw [requested]
          rintro _ ⟨⟩
          exact opens
      · cases ends
        exact .failure rfl rfl
  · next unrequested =>
      rw [sameOutput] at unrequested
      refine world.withOutput_cases ?_ ends
      rw [unrequested]
      exact nofun

/-- Every end of the program is of one of these kinds. -/
theorem World.main_cases
    {passes : Nat}
    {exit : Exit}
    (ends : world.main passes = some exit) :
    world.EndCase passes exit := by
  have law :=
    optionsLaw_parseArgs world.libc world.errno world.arguments
  unfold World.main at ends
  split at ends
  · cases ends
    exact .failure rfl rfl
  · next config parsed =>
      rw [parsed] at law
      have requested : config = computeChunkSize world.request :=
        law.configuration rfl
      rw [requested] at ends
      split at ends
      · cases ends
        exact .information _ rfl
      · split at ends
        · cases ends
          exact .information _ rfl
        · exact world.openAndRun_cases ends

end Exits

/-- Every run of the program is lawful, as long as `malloc` succeeds. -/
theorem World.mainRun_lawful
    {world : World}
    (malloc : ∀ call, world.ssl.mallocOk call = true)
    (passes : Nat) :
    world.Lawful (world.main passes) := by
  have law :=
    optionsLaw_parseArgs world.libc world.errno world.arguments
  unfold World.main
  cases parsed :
      parseArgs world.libc world.errno world.arguments
        defaultConfigSetting with
  | mk code config =>
      rw [parsed] at law
      cases code with
      | failure =>
          have refused :
              ¬ Acceptable world.libc world.errno world.arguments := by
            intro acceptable
            cases law.accepted.mpr acceptable
          exact
            .failure (fun both => refused both.1)
              (world.parseComplaint_explains refused)
              (.silent (parseComplaint_ne_notHexadecimal _ _ _)) nofun
      | success =>
          have accepted := law.accepted.mp rfl
          have requested : config = computeChunkSize world.request :=
            law.configuration rfl
          have same := computeChunkSize_sameRequest world.request
          rw [← requested] at same
          simp only
          split
          · next help =>
              refine .information accepted (fun generates => ?_) _
              rw [same.helpFlag, generates.1] at help
              cases help
          · next noHelp =>
              split
              · next version =>
                  refine .information accepted (fun generates => ?_) _
                  rw [same.versionFlag, generates.2] at version
                  cases version
              · next noVersion =>
                  rw [same.helpFlag] at noHelp
                  rw [same.versionFlag] at noVersion
                  rw [requested]
                  exact
                    world.openAndRun_lawful malloc accepted
                      ⟨Bool.eq_false_of_not_eq_true noHelp,
                        Bool.eq_false_of_not_eq_true noVersion⟩
                      passes

/-- A world with nothing to read, on a device that never fails. -/
def World.sample (ssl : OpenSsl) (arguments : List Argument) : World where
  libc := .decimal
  errno := false
  program := "rdrand-gen"
  arguments := arguments
  opensOutput := fun _ => true
  keyFile := fun _ _ => none
  keyFile_opened := nofun
  ssl := ssl
  heap := fun _ => List.replicate 32 0
  features := rdrandMask
  env := .inOrder .counting

end RdRand
