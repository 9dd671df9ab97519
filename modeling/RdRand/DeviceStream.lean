import RdRand.ByteFill
import RdRand.Generator
import RdRand.ReseedMethods

namespace RdRand

/-!
# The device as a stream of words

On a device that never fails every method of the generator takes the words of
one stream: the values of all steps, or of every step that
`rdrand_get_uint64_array_reseed_skip` keeps.  A fill serves its pieces of
memory from this stream, one word for each piece, from where the fill before
it ended.
-/

/-- The values a method throws away before each value that it keeps. -/
def Method.skips : Method → Nat
  | .getReseed64Skip => skippedSteps
  | _ => 0

/-- The position of the device before it gives a word of the stream. -/
def Method.position (method : Method) (word : Nat) : Nat :=
  (method.skips + 1) * word

/-- The step that gives a word of the stream. -/
def Method.step (method : Method) (word : Nat) : Nat :=
  method.position word + method.skips

/-- The pieces that a fill of some bytes divides its target into. -/
def Method.pieces (method : Method) (dest blocks : Nat) : List Nat :=
  match method with
  | .getBytes => (layoutOf dest blocks).segments.flatten
  | _ => List.replicate (blocks / 8) 8

/-- Pieces of memory that get the words of the stream from one on. -/
def streamPieces
    (device : Device)
    (method : Method)
    (pieces : List Nat)
    (word : Nat) : List Cell :=
  piecesFrom device pieces
    ((List.range' word pieces.length).map method.step)

/-- So many whole words of the stream. -/
def streamWords
    (device : Device)
    (method : Method)
    (count word : Nat) : List Cell :=
  streamPieces device method (List.replicate count 8) word

theorem Method.position_succ (method : Method) (word : Nat) :
    method.position (word + 1) = method.step word + 1 := by
  rw [step, position, Nat.mul_succ]
  rfl

section Pieces

variable (device : Device) (method : Method)

@[simp] theorem stepCells_length (piece position : Nat) :
    (stepCells device piece position).length = piece := by
  simp [stepCells]

@[simp] theorem streamPieces_nil (word : Nat) :
    streamPieces device method [] word = [] :=
  rfl

/-- The first piece gets the first word. -/
theorem streamPieces_cons
    (piece : Nat)
    (rest : List Nat)
    (word : Nat) :
    streamPieces device method (piece :: rest) word =
      stepCells device piece (method.step word) ++
        streamPieces device method rest (word + 1) := by
  simp [streamPieces, piecesFrom, List.range'_succ]

theorem streamPieces_append
    (first second : List Nat)
    (word : Nat) :
    streamPieces device method (first ++ second) word =
      streamPieces device method first word ++
        streamPieces device method second (word + first.length) := by
  induction first generalizing word with
  | nil =>
      rfl
  | cons piece rest inductionHypothesis =>
      rw [List.cons_append, streamPieces_cons, inductionHypothesis,
        streamPieces_cons, List.append_assoc, List.length_cons,
        Nat.add_right_comm, Nat.add_assoc]

@[simp] theorem streamPieces_length
    (pieces : List Nat)
    (word : Nat) :
    (streamPieces device method pieces word).length = pieces.sum := by
  induction pieces generalizing word with
  | nil =>
      rfl
  | cons piece rest inductionHypothesis =>
      rw [streamPieces_cons, List.length_append, inductionHypothesis,
        stepCells_length, List.sum_cons]

@[simp] theorem streamWords_length (count word : Nat) :
    (streamWords device method count word).length = 8 * count := by
  simp [streamWords, Nat.mul_comm]

/-- Words of the stream in two parts. -/
theorem streamWords_add (first second word : Nat) :
    streamWords device method (first + second) word =
      streamWords device method first word ++
        streamWords device method second (word + first) := by
  simp only [streamWords, ← List.replicate_append_replicate,
    streamPieces_append, List.length_replicate]

/-- Runs of words that follow each other are one run. -/
theorem streamWords_flatMap (size count word : Nat) :
    ((List.range count).flatMap fun index =>
        streamWords device method size (word + size * index)) =
      streamWords device method (size * count) word := by
  induction count with
  | zero =>
      rfl
  | succ count inductionHypothesis =>
      rw [List.range_succ, List.flatMap_append, inductionHypothesis,
        Nat.mul_succ, streamWords_add]
      simp only [List.flatMap_cons, List.flatMap_nil, List.append_nil]

end Pieces

/-- Acquisitions that give the words of the stream one after another. -/
def Streams
    (device : Device)
    (method : Method)
    (acquire : Nat → Acquisition) : Prop :=
  ∀ word,
    acquire (method.position word) =
      { rc := rdrandSuccess
        value := some (device (method.step word)).value
        position := method.position (word + 1) }

section Serving

variable
  {device : Device}
  {method : Method}
  {acquire : Nat → Acquisition}

/-- A service of pieces takes one word of the stream for each of them. -/
theorem Streams.serve
    (streams : Streams device method acquire)
    {pieces : List Nat}
    (small : ∀ piece ∈ pieces, piece ≤ 8)
    (dest word : Nat) :
    (RdRand.serve acquire pieces dest (method.position word)).position =
        method.position (word + pieces.length) ∧
      CellMemory.contents
          (RdRand.serve acquire pieces dest
            (method.position word)).runs =
        streamPieces device method pieces word := by
  induction pieces generalizing dest word with
  | nil =>
      exact ⟨rfl, rfl⟩
  | cons piece rest inductionHypothesis =>
      obtain ⟨firstSmall, restSmall⟩ := List.forall_mem_cons.mp small
      have saved :
          (acquire (method.position word)).value =
            some (device (method.step word)).value := by
        rw [streams word]
      obtain ⟨position, contents⟩ :=
        inductionHypothesis restSmall (dest + piece) (word + 1)
      have next :
          (acquire (method.position word)).position =
            method.position (word + 1) := by
        rw [streams word]
      have taken :
          method.position (word + 1) - 1 = method.step word := by
        rw [Method.position_succ, Nat.add_sub_cancel]
      rw [serve_served saved, next]
      refine ⟨?_, ?_⟩
      · rw [List.length_cons, Nat.add_comm rest.length, ← Nat.add_assoc]
        exact position
      · simp only [Fill.runs, List.map_cons, CellMemory.contents_cons,
          taken, cells_eq_stepCells firstSmall, streamPieces_cons]
        exact congrArg _ contents

/-- Segments that come never short are served like all their pieces. -/
theorem SegmentRun.complete
    (saves : ∀ current, ∃ value, (acquire current).value = some value)
    {segments : List (List Nat)}
    {dest position final : Nat}
    {stores : List Store}
    (run : SegmentRun acquire segments dest position stores final) :
    stores =
        (RdRand.serve acquire segments.flatten dest position).stores ∧
      final =
        (RdRand.serve acquire segments.flatten dest
          position).position := by
  induction run with
  | finished =>
      exact ⟨rfl, rfl⟩
  | next run inductionHypothesis =>
      exact inductionHypothesis
  | served saved run inductionHypothesis =>
      obtain ⟨stores, final⟩ := inductionHypothesis
      rw [List.flatten_cons, List.cons_append, serve_served saved]
      exact ⟨congrArg _ stores, final⟩
  | @short _ _ _ _ position _ _ missed run inductionHypothesis =>
      obtain ⟨value, saved⟩ := saves position
      rw [missed] at saved
      cases saved

end Serving

section Methods

variable {device : Device} (neverFails : device.NeverFails)

include neverFails

/-- The inline loop takes every step. -/
theorem acquireInline_streams
    {method : Method}
    (keepsAll : method.skips = 0)
    (limit : Int) :
    Streams device method (acquireInline device limit) := by
  intro word
  have step : method.step word = method.position word := by
    rw [Method.step, keepsAll, Nat.add_zero]
  rw [acquireInline_of_delivers (neverFails _), Method.position_succ,
    step]

/-- The skipping function takes the steps that it keeps. -/
theorem acquireSkipping_streams (limit : Int) :
    Streams device .getReseed64Skip (acquireSkipping device limit) := by
  intro word
  rw [acquireSkipping, rdrandGetUint64Retry_of_delivers (neverFails _),
    Method.position_succ]
  rfl

/-- A fill gives the pieces of its target the next words of the stream. -/
theorem generateWithMetod_stream
    {config : Cnf}
    (realMethod : config.method ≠ .methodsCount)
    (dest blocks : Nat)
    (retry : Int)
    (word : Nat) :
    let pieces := config.method.pieces dest blocks
    let fill :=
      generateWithMetod device config dest blocks retry
        (config.method.position word)
    fill.position = config.method.position (word + pieces.length) ∧
      ∀ memory,
        fill.applyTo memory =
          CellMemory.store memory dest
            (streamPieces device config.method pieces word) := by
  have words :
      ∀ piece ∈ List.replicate (blocks / 8) 8, piece ≤ 8 :=
    fun piece member => Nat.le_of_eq (List.eq_of_mem_replicate member)
  unfold generateWithMetod
  cases method : config.method with
  | getBytes =>
      have streams :=
        acquireInline_streams neverFails
          (show Method.getBytes.skips = 0 from rfl)
          (effectiveLimit retry)
      have small := (layoutOf dest blocks).segments_small
      obtain ⟨run, _⟩ :=
        rdrandGetBytesRetry_run device dest blocks retry
          (Method.getBytes.position word)
      obtain ⟨stores, final⟩ :=
        run.complete
          (acquireInline_saves neverFails (effectiveLimit retry))
      obtain ⟨position, contents⟩ := streams.serve small dest word
      refine ⟨final.trans position, fun memory => ?_⟩
      have same :
          ∀ fill : Fill,
            (rdrandGetBytesRetry device dest blocks retry
                (Method.getBytes.position word)).stores = fill.stores →
            (rdrandGetBytesRetry device dest blocks retry
                (Method.getBytes.position word)).applyTo memory =
              fill.applyTo memory := by
        intro fill equal
        simp only [Fill.applyTo, equal]
      simp only [Method.pieces]
      rw [same _ stores, serve_applyTo small, contents]
  | getReseed64Delay =>
      have streams :=
        acquireInline_streams neverFails
          (show Method.getReseed64Delay.skips = 0 from rfl)
          (effectiveLimit retry)
      obtain ⟨position, contents⟩ := streams.serve words dest word
      have served :
          rdrandGetUint64ArrayReseedDelay device dest (blocks / 8) retry
              (Method.getReseed64Delay.position word) =
            RdRand.serve (acquireInline device (effectiveLimit retry))
              (List.replicate (blocks / 8) 8) dest
              (Method.getReseed64Delay.position word) := by
        rw [reseedDelay_eq]
        exact
          fillWords_eq_serve
            (acquireInline_sound device (effectiveLimit retry)) _ _ _
      simp only [Method.pieces, served]
      refine ⟨position, fun memory => ?_⟩
      exact
        (serve_applyTo words dest _ memory).trans (by rw [contents])
  | getReseed64Skip =>
      have streams := acquireSkipping_streams neverFails retry
      obtain ⟨position, contents⟩ := streams.serve words dest word
      simp only [Method.pieces, reseedSkip_eq_serve]
      refine ⟨position, fun memory => ?_⟩
      exact
        (serve_applyTo words dest _ memory).trans (by rw [contents])
  | methodsCount =>
      exact absurd method realMethod

end Methods

/-- An aligned target is divided into words, and the bytes behind them. -/
theorem Method.pieces_aligned
    (method : Method)
    {dest blocks : Nat}
    (aligned : dest % 8 = 0)
    (fits : blocks < uintModulus)
    (whole : method = .getBytes ∨ blocks % 8 = 0) :
    method.pieces dest blocks =
      List.replicate (blocks / 8) 8 ++
        if blocks % 8 > 0 then [blocks % 8] else [] := by
  cases method with
  | getBytes =>
      by_cases short : blocks < 8
      · have layout :
            layoutOf dest blocks =
              { offset := 0
                alignedStart := dest
                alignedBytes := blocks } := by
          simp [layoutOf, short, Nat.mod_eq_of_lt fits]
        simp [Method.pieces, layout, Layout.segments, bytePieces,
          arrayPieces, Nat.div_eq_of_lt short]
      · have long := Nat.not_lt.mp short
        have layout :
            layoutOf dest blocks =
              { offset := 8
                alignedStart := dest / 8 * 8 + 8
                alignedBytes := blocks - 8 } := by
          have small : blocks - 8 < uintModulus := by
            omega
          simp [layoutOf, short, aligned, Nat.mod_eq_of_lt small]
        have words : blocks / 8 = (blocks - 8) / 8 + 1 := by
          omega
        have rest : (blocks - 8) % 8 = blocks % 8 := by
          omega
        simp [Method.pieces, layout, Layout.segments, bytePieces,
          arrayPieces, words, rest, List.replicate_succ]
  | _ =>
      simpa [Method.pieces] using whole

/-- An aligned target of whole words is divided into its words. -/
theorem Method.pieces_words
    (method : Method)
    {dest count : Nat}
    (aligned : dest % 8 = 0)
    (fits : 8 * count < uintModulus) :
    method.pieces dest (8 * count) = List.replicate count 8 := by
  rw [method.pieces_aligned aligned fits (.inr (Nat.mul_mod_right 8 _))]
  simp

/-- The pieces make up the target, unless it is rounded down to words. -/
theorem Method.pieces_sum
    (method : Method)
    (dest : Nat)
    {blocks : Nat}
    (fits : blocks < uintModulus)
    (whole : method = .getBytes ∨ blocks % 8 = 0) :
    (method.pieces dest blocks).sum = blocks := by
  by_cases bytes : method = .getBytes
  · subst bytes
    exact
      (Layout.segments_sum _).trans (layoutOf_parts dest fits).2.2
  · have words : 8 ∣ blocks :=
      Nat.dvd_of_mod_eq_zero (whole.resolve_left bytes)
    cases method with
    | getBytes =>
        exact absurd rfl bytes
    | _ =>
        simp [Method.pieces, Nat.div_mul_cancel words]

/-- Some leading bytes of a step. -/
theorem stepCells_take
    (device : Device)
    {piece : Nat}
    (small : piece ≤ 8)
    (position : Nat) :
    (stepCells device 8 position).take piece =
      stepCells device piece position := by
  rw [stepCells, ← List.map_take, List.take_range,
    Nat.min_eq_left small]
  rfl

/-- An aligned target gets the bytes of the stream. -/
theorem streamPieces_aligned
    (device : Device)
    (method : Method)
    {dest blocks : Nat}
    (aligned : dest % 8 = 0)
    (fits : blocks < uintModulus)
    (whole : method = .getBytes ∨ blocks % 8 = 0)
    (word : Nat) :
    streamPieces device method (method.pieces dest blocks) word =
      (streamWords device method (blocks / 8 + 1) word).take blocks := by
  rw [method.pieces_aligned aligned fits whole, streamWords_add,
    streamPieces_append, List.take_append, streamWords_length]
  have front :
      (streamWords device method (blocks / 8) word).take blocks =
        streamWords device method (blocks / 8) word :=
    List.take_of_length_le (by simp; omega)
  have rest : blocks - 8 * (blocks / 8) = blocks % 8 := by
    omega
  rw [front, rest, streamWords, List.length_replicate]
  refine congrArg _ ?_
  have small : blocks % 8 ≤ 8 := Nat.le_of_lt (Nat.mod_lt _ (by decide))
  split
  · simp only [streamPieces_cons, streamPieces_nil, streamWords,
      List.replicate_succ, List.replicate_zero, List.append_nil,
      stepCells_take device small]
  · next none =>
      have nothing : blocks % 8 = 0 := by
        omega
      simp [nothing]

end RdRand
