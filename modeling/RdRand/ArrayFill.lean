import RdRand.Device

namespace RdRand

/-!
# Filling memory from the device

A function that fills memory reports how much it generated, the stores it
made in order, and the device position it advanced to.  Addresses are natural
numbers, since no C object wraps around the end of the address space.

`Fill.Sound` collects what the rest of the development uses of a fill: every
store lies inside the target, holds bytes of one successful step taken since
the fill began, and a fill that reports its whole target has covered it.
-/

/-- One store: its address, the bytes stored, and the step they come from. -/
structure Store where
  address : Nat
  bytes : List Byte
  origin : Nat
  deriving Repr, DecidableEq

/-- The little-endian bytes of a 64-bit value. -/
def wordBytes (value : Word) : List Byte :=
  (List.range 8).map fun index => (value >>> (8 * index)).setWidth 8

@[simp] theorem wordBytes_length (value : Word) :
    (wordBytes value).length = 8 := by
  simp [wordBytes]

/-- The result of a function that fills memory. -/
structure Fill where
  generated : Nat
  stores : List Store
  position : Nat
  deriving Repr, DecidableEq

namespace Store

/-- The store writes to an address. -/
def Covers (store : Store) (address : Nat) : Prop :=
  store.address ≤ address ∧
    address < store.address + store.bytes.length

/--
The stored bytes are the leading bytes of the value that a successful step,
taken between two positions, delivered.
-/
structure FromDevice
    (device : Device)
    (start finish : Nat)
    (store : Store) : Prop where
  notBefore : start ≤ store.origin
  before : store.origin < finish
  delivered : device.Delivers store.origin
  contents :
    store.bytes =
      (wordBytes (device store.origin).value).take store.bytes.length

/-- The interval of positions of a store's step may be widened. -/
theorem FromDevice.widen
    {device : Device}
    {start finish earlier later : Nat}
    {store : Store}
    (fromDevice : store.FromDevice device start finish)
    (lower : earlier ≤ start)
    (upper : finish ≤ later) :
    store.FromDevice device earlier later where
  notBefore := Nat.le_trans lower fromDevice.notBefore
  before := Nat.lt_of_lt_of_le fromDevice.before upper
  delivered := fromDevice.delivered
  contents := fromDevice.contents

end Store

namespace Fill

/-- The fill that does nothing. -/
def nothing (position : Nat) : Fill where
  generated := 0
  stores := []
  position := position

/-- A fill that is only made for a count other than 0. -/
def unlessZero (count : Nat) (fill : Fill) (position : Nat) : Fill :=
  if count ≠ 0 then fill else nothing position

/-- One fill after another, the amounts added. -/
def andThen (first second : Fill) : Fill where
  generated := first.generated + second.generated
  stores := first.stores ++ second.stores
  position := second.position

/-- `8 * generated` in `unsigned int`, for a fill that counted words. -/
def inBytes (fill : Fill) : Fill where
  generated := 8 * fill.generated % uintModulus
  stores := fill.stores
  position := fill.position

/-- Some store of the fill writes to an address. -/
def Covers (fill : Fill) (address : Nat) : Prop :=
  ∃ store ∈ fill.stores, store.Covers address

/--
A fill of `count` units of `unit` bytes from `dest`, begun at device position
`start`, does what its callers rely on.
-/
structure Sound
    (device : Device)
    (start dest unit count : Nat)
    (fill : Fill) : Prop where
  advances : start ≤ fill.position
  fromDevice :
    ∀ store ∈ fill.stores,
      store.FromDevice device start fill.position
  inside :
    ∀ store ∈ fill.stores,
      dest ≤ store.address ∧
        store.address + store.bytes.length ≤ dest + unit * count
  bounded : fill.generated ≤ count
  complete :
    fill.generated = count →
    ∀ address,
      dest ≤ address →
      address < dest + unit * count →
      fill.Covers address

/-- Doing nothing fills an empty target. -/
theorem nothing_sound
    (device : Device)
    (start dest unit : Nat) :
    (nothing start).Sound device start dest unit 0 where
  advances := Nat.le_refl start
  fromDevice := by
    intro store member
    cases member
  inside := by
    intro store member
    cases member
  bounded := Nat.le_refl 0
  complete := by
    intro _ address atLeast below
    omega

/-- Doing no store is sound for every target that is not empty. -/
theorem empty_sound
    {device : Device}
    {start dest unit count position : Nat}
    (advances : start ≤ position)
    (nonempty : 0 < count) :
    (Fill.mk 0 [] position).Sound device start dest unit count where
  advances := advances
  fromDevice := by
    intro store member
    cases member
  inside := by
    intro store member
    cases member
  bounded := Nat.zero_le count
  complete := by
    intro whole
    simp only at whole
    omega

/-- A skipped fill is sound when its target is empty. -/
theorem unlessZero_sound
    {device : Device}
    {start dest unit count size : Nat}
    {fill : Fill}
    (sound :
      count ≠ 0 → fill.Sound device start dest unit size)
    (empty : count = 0 → size = 0) :
    (unlessZero count fill start).Sound
      device start dest unit size := by
  by_cases skipped : count = 0
  · rw [empty skipped]
    simpa [unlessZero, skipped] using
      nothing_sound device start dest unit
  · simpa [unlessZero, skipped] using sound skipped

/-- A skipped fill generates nothing, as its empty target asks for. -/
theorem unlessZero_generated
    {count size position : Nat}
    {fill : Fill}
    (generated : count ≠ 0 → fill.generated = size)
    (empty : count = 0 → size = 0) :
    (unlessZero count fill position).generated = size := by
  by_cases skipped : count = 0
  · simp [unlessZero, skipped, nothing, empty skipped]
  · simpa [unlessZero, skipped] using generated skipped

/-- Sound fills of adjacent targets make a sound fill of both together. -/
theorem Sound.andThen
    {device : Device}
    {start dest unit firstCount secondCount : Nat}
    {first second : Fill}
    (firstSound : first.Sound device start dest unit firstCount)
    (secondSound :
      second.Sound device first.position
        (dest + unit * firstCount) unit secondCount) :
    (first.andThen second).Sound
      device start dest unit (firstCount + secondCount) where
  advances :=
    Nat.le_trans firstSound.advances secondSound.advances
  fromDevice := by
    intro store member
    rcases List.mem_append.mp member with inFirst | inSecond
    · exact (firstSound.fromDevice store inFirst).widen
        (Nat.le_refl start) secondSound.advances
    · exact (secondSound.fromDevice store inSecond).widen
        firstSound.advances (Nat.le_refl second.position)
  inside := by
    intro store member
    rw [Nat.mul_add]
    rcases List.mem_append.mp member with inFirst | inSecond
    · have bounds := firstSound.inside store inFirst
      omega
    · have bounds := secondSound.inside store inSecond
      omega
  bounded := by
    have firstBounded := firstSound.bounded
    have secondBounded := secondSound.bounded
    simp only [Fill.andThen]
    omega
  complete := by
    intro whole address atLeast below
    have firstBounded := firstSound.bounded
    have secondBounded := secondSound.bounded
    simp only [Fill.andThen] at whole
    rw [Nat.mul_add] at below
    by_cases inFirst : address < dest + unit * firstCount
    · obtain ⟨store, member, covers⟩ :=
        firstSound.complete (by omega) address atLeast inFirst
      exact ⟨store, List.mem_append_left second.stores member, covers⟩
    · obtain ⟨store, member, covers⟩ :=
        secondSound.complete (by omega) address (by omega) (by omega)
      exact ⟨store, List.mem_append_right first.stores member, covers⟩

/-- A target may be enlarged, since the larger one is then never complete. -/
theorem Sound.enlarge
    {device : Device}
    {start dest unit count larger : Nat}
    {fill : Fill}
    (sound : fill.Sound device start dest unit count)
    (le : count ≤ larger) :
    fill.Sound device start dest unit larger where
  advances := sound.advances
  fromDevice := sound.fromDevice
  inside := by
    intro store member
    have bounds := sound.inside store member
    have grows := Nat.mul_le_mul_left unit le
    omega
  bounded := Nat.le_trans sound.bounded le
  complete := by
    intro whole
    have bounded := sound.bounded
    have same : larger = count := by
      omega
    rw [same]
    exact sound.complete (by omega)

/-- A fill may be taken to have begun at an earlier device position. -/
theorem Sound.since
    {device : Device}
    {start earlier dest unit count : Nat}
    {fill : Fill}
    (sound : fill.Sound device start dest unit count)
    (le : earlier ≤ start) :
    fill.Sound device earlier dest unit count where
  advances := Nat.le_trans le sound.advances
  fromDevice := by
    intro store member
    exact (sound.fromDevice store member).widen le
      (Nat.le_refl fill.position)
  inside := sound.inside
  bounded := sound.bounded
  complete := sound.complete

/-- A sound fill of words is a sound fill of their bytes. -/
theorem Sound.inBytes
    {device : Device}
    {start dest count : Nat}
    {fill : Fill}
    (sound : fill.Sound device start dest 8 count)
    (fits : 8 * count < uintModulus) :
    fill.inBytes.Sound device start dest 1 (8 * count) where
  advances := sound.advances
  fromDevice := sound.fromDevice
  inside := by
    intro store member
    simpa using sound.inside store member
  bounded := by
    have bounded := sound.bounded
    have exact : fill.inBytes.generated = 8 * fill.generated :=
      Nat.mod_eq_of_lt (by omega)
    omega
  complete := by
    intro whole address atLeast below
    have bounded := sound.bounded
    have exact : fill.inBytes.generated = 8 * fill.generated :=
      Nat.mod_eq_of_lt (by omega)
    exact sound.complete (by omega) address atLeast (by omega)

end Fill

/--
The loop shared by the three functions that fill an array of 64-bit values:
acquire a value, store it and advance, or stop at the first failure.
-/
def fillWords
    (acquire : Nat → Acquisition) : Nat → Nat → Nat → Fill
  | 0, _, position =>
      Fill.nothing position
  | count + 1, dest, position =>
      let acquired := acquire position
      if acquired.rc = rdrandSuccess then
        let rest := fillWords acquire count (dest + 8) acquired.position
        { generated := rest.generated + 1
          stores :=
            { address := dest
              bytes := wordBytes (acquired.value.getD 0)
              origin := acquired.position - 1 } :: rest.stores
          position := rest.position }
      else
        { generated := 0, stores := [], position := acquired.position }

/-- The store of one acquired value comes from its last step. -/
theorem Acquisition.Sound.store_fromDevice
    {device : Device}
    {start dest : Nat}
    {acquired : Acquisition}
    (sound : acquired.Sound device start)
    (success : acquired.rc = rdrandSuccess) :
    (Store.mk dest (wordBytes (acquired.value.getD 0))
      (acquired.position - 1)).FromDevice
        device start acquired.position := by
  obtain ⟨value, saved⟩ :=
    Option.isSome_iff_exists.mp (sound.codes.mp success)
  have advances := sound.advances
  obtain ⟨delivers, sameValue⟩ := sound.fromDevice saved
  refine ⟨?_, ?_, delivers, ?_⟩
  · simp only
    omega
  · simp only
    omega
  · simp [saved, sameValue, List.take_of_length_le]

/-- The array loop is sound whenever its acquisitions are. -/
theorem fillWords_sound
    {device : Device}
    {acquire : Nat → Acquisition}
    (acquires : ∀ position, (acquire position).Sound device position)
    (count dest position : Nat) :
    (fillWords acquire count dest position).Sound
      device position dest 8 count := by
  induction count generalizing dest position with
  | zero =>
      exact Fill.nothing_sound device position dest 8
  | succ count inductionHypothesis =>
      have acquired := acquires position
      have advances := acquired.advances
      unfold fillWords
      simp only
      split
      · next success =>
          have first :
              (Fill.mk 1
                [Store.mk dest
                  (wordBytes ((acquire position).value.getD 0))
                  ((acquire position).position - 1)]
                (acquire position).position).Sound
                  device position dest 8 1 := by
            refine ⟨Nat.le_of_lt advances, ?_, ?_, Nat.le_refl 1, ?_⟩
            · intro store member
              rw [List.mem_singleton.mp member]
              exact acquired.store_fromDevice success
            · intro store member
              rw [List.mem_singleton.mp member]
              simp
            · intro _ address atLeast below
              exact ⟨_, List.mem_singleton_self _, atLeast, by simpa⟩
          have both :=
            first.andThen
              (inductionHypothesis (dest + 8 * 1)
                (acquire position).position)
          simpa [Fill.andThen, Nat.add_comm] using both
      · exact Fill.empty_sound (Nat.le_of_lt advances)
          (Nat.succ_pos count)

/-- When every acquisition succeeds, the array loop saves every value. -/
theorem fillWords_generated
    {acquire : Nat → Acquisition}
    (succeeds : ∀ position, (acquire position).rc = rdrandSuccess)
    (count dest position : Nat) :
    (fillWords acquire count dest position).generated = count := by
  induction count generalizing dest position with
  | zero =>
      rfl
  | succ count inductionHypothesis =>
      simp [fillWords, succeeds position, inductionHypothesis]

/-- `rdrand_get_uint64_array_retry`. -/
def rdrandGetUint64ArrayRetry
    (device : Device)
    (dest count : Nat)
    (retryLimit : Int)
    (position : Nat) : Fill :=
  fillWords (acquireInline device (effectiveLimit retryLimit))
    count dest position

/-- `rdrand_get_uint64_array_reseed_delay`; the delay leaves no trace. -/
def rdrandGetUint64ArrayReseedDelay
    (device : Device)
    (dest count : Nat)
    (retryLimit : Int)
    (position : Nat) : Fill :=
  fillWords (rdrandGetUint64Retry device (effectiveLimit retryLimit))
    count dest position

/-- The values `rdrand_get_uint64_array_reseed_skip` throws away per saved one. -/
def skippedSteps : Nat := 1024

/-- `rdrand_get_uint64_array_reseed_skip`. -/
def rdrandGetUint64ArrayReseedSkip
    (device : Device)
    (dest count : Nat)
    (retryLimit : Int)
    (position : Nat) : Fill :=
  fillWords
    (fun current =>
      rdrandGetUint64Retry device (effectiveLimit retryLimit)
        (current + skippedSteps))
    count dest position

/-- `rdrand_get_uint8_array_retry`: a short head, then whole words. -/
def rdrandGetUint8ArrayRetry
    (device : Device)
    (dest count : Nat)
    (retryLimit : Int)
    (position : Nat) : Fill :=
  let count64 := count / 8
  let count8 := count % 8
  let limit := effectiveLimit retryLimit
  if count8 > 0 then
    let (outcome, next) := retryStep device (furtherTries limit) position
    if outcome.rc = rdrandSuccess then
      (Fill.mk count8
        [{ address := dest
           bytes := (wordBytes outcome.value).take count8
           origin := next - 1 }]
        next).andThen
          (rdrandGetUint64ArrayRetry device
            (dest + count8) count64 limit next).inBytes
    else
      { generated := 0, stores := [], position := next }
  else
    (rdrandGetUint64ArrayRetry device dest count64 limit position).inBytes

/-- How `rdrand_get_bytes_retry` divides its target. -/
structure Layout where
  offset : Nat
  alignedStart : Nat
  alignedBytes : Nat
  deriving Repr, DecidableEq

/--
The alignment computation of `rdrand_get_bytes_retry`.  The `offset` of an
aligned start is 8, never 0, and `alignedBytes` is an `unsigned int`.
-/
def layoutOf (start size : Nat) : Layout :=
  if size < 8 then
    { offset := 0
      alignedStart := start
      alignedBytes := size % uintModulus }
  else
    let offset := 8 - start % 8
    if offset = 0 then
      { offset := offset
        alignedStart := start
        alignedBytes := size % uintModulus }
    else
      { offset := offset
        alignedStart := start / 8 * 8 + 8
        alignedBytes := (size - offset) % uintModulus }

/-- `rdrand_get_bytes_retry`: head, aligned words, rest. -/
def rdrandGetBytesRetry
    (device : Device)
    (start size : Nat)
    (retryLimit : Int)
    (position : Nat) : Fill :=
  let limit := effectiveLimit retryLimit
  let layout := layoutOf start size
  let rest := layout.alignedBytes % 8
  let qWords := (layout.alignedBytes - rest) / 8
  let head :=
    Fill.unlessZero layout.offset
      (rdrandGetUint8ArrayRetry device
        start layout.offset limit position)
      position
  let body :=
    Fill.unlessZero qWords
      (rdrandGetUint64ArrayRetry device
        layout.alignedStart qWords limit head.position).inBytes
      head.position
  let tail :=
    Fill.unlessZero rest
      (rdrandGetUint8ArrayRetry device
        (layout.alignedStart + 8 * qWords) rest limit body.position)
      body.position
  (head.andThen body).andThen tail

end RdRand
