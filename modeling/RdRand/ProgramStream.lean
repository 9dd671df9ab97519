import RdRand.ProgramDelivery
import RdRand.StreamOutput

namespace RdRand

/-!
# What the program puts out

Without AES, and on a device and an output that never fail, the program puts
out the bytes of the device's stream, as many as it was asked for.  Its threads
can only change the order of the slices within a round, so that one thread, or
threads that take their turns in order, put out the stream itself.
-/

/-- The rounds and the ending are the bytes of the stream. -/
theorem Environment.stream_split
    (env : Environment)
    {config : Cnf}
    (split : config.Split)
    (finite : 0 < config.bytes)
    (whole : config.method = .getBytes ∨ config.endingBytes % 8 = 0)
    (aligned : env.endingAddress % 8 = 0) :
    streamWords env.device config.method
          (config.chunkSize * (config.threads * config.chunkCount)) 0 ++
        env.endingCells config =
      (streamWords env.device config.method (config.bytes / 8 + 1)
        0).take config.bytes := by
  have exactly := split.exactly finite
  have rounds :
      config.roundBytes * config.chunkCount =
        8 * (config.chunkSize *
          (config.threads * config.chunkCount)) := by
    rw [Cnf.roundBytes, Nat.mul_assoc, Nat.mul_assoc]
  have words :
      config.bytes / 8 + 1 =
        config.chunkSize * (config.threads * config.chunkCount) +
          (config.endingBytes / 8 + 1) := by
    omega
  rw [words, streamWords_add, List.take_append, streamWords_length,
    Nat.zero_add, Environment.endingCells,
    streamPieces_aligned env.device config.method aligned
      split.endingBytes_lt whole]
  have front :
      (streamWords env.device config.method
          (config.chunkSize * (config.threads * config.chunkCount))
          0).take config.bytes =
        streamWords env.device config.method
          (config.chunkSize * (config.threads * config.chunkCount))
          0 :=
    List.take_of_length_le (by simp; omega)
  have rest :
      config.bytes -
          8 * (config.chunkSize *
            (config.threads * config.chunkCount)) =
        config.endingBytes := by
    omega
  rw [front, rest]

/-- What `generate` puts out without AES, to the byte. -/
theorem generate_output_stream
    {Aes : Type}
    {env : Environment}
    {encBuffer : EncBuffer Aes}
    (reliable : env.Reliable)
    {config : Cnf}
    (split : config.Split)
    (realMethod : config.method ≠ .methodsCount)
    (plain : config.aesFlag = false)
    (whole : config.method = .getBytes ∨ config.bytes % 8 = 0)
    (aligned : env.endingAddress % 8 = 0)
    {aes : Aes}
    {passes : Nat}
    {generated : Generated Aes}
    (ends : generate env encBuffer config aes passes = some generated) :
    let stream :=
      (streamWords env.device config.method (config.bytes / 8 + 1)
        0).take config.bytes
    (outputCells generated.trace).Perm stream ∧
      ((∀ round bodies, env.schedule round bodies = List.range bodies) →
        outputCells generated.trace = stream) := by
  have counterFits : config.CounterFits := by
    rintro ⟨flag, _⟩
    rw [plain] at flag
    cases flag
  obtain ⟨finite, state, rfl, streamed, all⟩ :=
    generate_streamed reliable counterFits split realMethod ends
  have wholeEnding :
      config.method = .getBytes ∨ config.endingBytes % 8 = 0 := by
    rwa [split.endingBytes_mod finite]
  have output :
      outputCells (finishGenerate env encBuffer none state).trace =
        ((List.range config.chunkCount).flatMap fun round =>
            (env.roundSlices config round).flatten) ++
          env.endingCells config := by
    rw [← all, ← streamed.output plain]
    exact
      generateEnding_stream reliable split realMethod wholeEnding plain
        streamed all
  rw [output, ← env.stream_split split finite wholeEnding aligned]
  refine
    ⟨(env.rounds_perm config config.chunkCount).append_right _,
      fun inOrder => ?_⟩
  have turns :
      ∀ round, env.turns config round = List.range config.threads := by
    intro round
    rw [Environment.turns, inOrder, Cnf.aesThread, plain]
    exact
      List.filter_eq_self.mpr fun body member =>
        decide_eq_true (List.mem_range.mp member)
  rw [← env.rounds_stream config]
  refine congrArg (· ++ env.endingCells config) ?_
  exact
    List.flatMap_congr fun round _ => by
      rw [env.roundSlices_inOrder config (turns round)]

/-- Without AES there are no keys to set. -/
theorem World.setKeys_plain
    {world : World}
    {config : Cnf}
    (plain : config.aesFlag = false) :
    world.setKeys config = some { complaint := none, aes := aesStart } := by
  unfold World.setKeys
  rw [plain, if_neg Bool.false_ne_true]

/--
Without AES, where the device and `fwrite` do not fail and the amount consists
of bytes that the method generates, a program that is served puts out the bytes
of the device's stream, and where its threads take their turns in order it puts
them out in their order.
-/
theorem main_stream
    {world : World}
    (reliable : world.env.Reliable)
    (accepted : Acceptable world.libc world.errno world.arguments)
    (generates : world.Generates)
    (served : world.Served)
    (plain : world.request.aesFlag = false)
    (whole :
      world.request.method = .getBytes ∨ world.request.bytes % 8 = 0)
    (aligned : world.env.endingAddress % 8 = 0)
    {passes : Nat}
    {exit : Exit}
    (ends : world.main passes = some exit) :
    let stream :=
      (streamWords world.env.device world.request.method
        (world.request.bytes / 8 + 1) 0).take world.request.bytes
    exit.output.Perm stream ∧
      ((∀ round bodies,
          world.env.schedule round bodies = List.range bodies) →
        exit.output = stream) := by
  obtain ⟨split, realMethod⟩ :=
    parseArgs_split (world.parseArgs_request accepted)
  obtain ⟨_, _, _, _, sameRequest⟩ :=
    computeChunkSize_frame world.request
  have sameMethod :
      (computeChunkSize world.request).method =
        world.request.method := by
    rw [sameRequest]
  have sameBytes :
      (computeChunkSize world.request).bytes = world.request.bytes := by
    rw [sameRequest]
  have stillPlain : (computeChunkSize world.request).aesFlag = false :=
    (computeChunkSize_sameRequest world.request).aesFlag.trans plain
  rw [world.main_served accepted generates served.output served.processor
    (World.setKeys_plain stillPlain)] at ends
  obtain ⟨generated, run, rfl⟩ := Option.map_eq_some_iff.mp ends
  rw [← sameMethod, ← sameBytes] at whole ⊢
  exact
    generate_output_stream reliable split realMethod stillPlain whole
      aligned run

/-- A kibibyte with two threads. -/
def World.twoThreads : World :=
  .sample .sample [.threads "2", .amount "1024"]

/-- Two threads that take their turns in order put out the stream. -/
theorem main_stream_twoThreads :
    ∃ passes exit,
      World.twoThreads.main passes = some exit ∧
        exit.output =
          (streamWords .counting .getBytes 129 0).take 1024 := by
  have accepted :
      Acceptable LibC.decimal false World.twoThreads.arguments :=
    ⟨List.all_eq_true.mp (by decide),
      by simp [World.twoThreads, World.sample]⟩
  have reliable : World.twoThreads.env.Reliable :=
    ⟨Device.counting_neverFails, fun _ _ => rfl⟩
  obtain ⟨split, realMethod⟩ :=
    parseArgs_split (World.twoThreads.parseArgs_request accepted)
  have served : World.twoThreads.Served := by
    refine ⟨fun _ _ => rfl, ?_, rfl⟩
    rintro _ ⟨⟩
  obtain ⟨passes, generated, run, _⟩ :=
    generate_of_countable
      (rdrandEncBufferCells World.twoThreads.ssl) reliable split
      realMethod (by decide) aesStart (by decide) (.inl rfl)
  have ends :=
    World.twoThreads.main_served accepted ⟨rfl, rfl⟩ served.output
      served.processor rfl passes
  rw [World.generateAndClean, run] at ends
  exact
    ⟨passes, _, ends,
      (main_stream reliable accepted ⟨rfl, rfl⟩ served rfl (.inl rfl) rfl
        ends).2
        fun _ _ => rfl⟩

end RdRand
