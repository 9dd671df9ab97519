import RdRand.CounterMode

namespace KeyRing

/-!
# Rings of keys

A ring holds keys and nonces for a cipher in counter mode, and an allowance of
symbols for the current key.  When the allowance does not cover a charge, the
ring turns: the next key and nonce are masked with the keystream of the
current ones, stored, and taken into use.

A turn depends on the ring and on nothing else, so two parties whose rings are
equal stay in step as long as they make the same charges and mask messages of
the same lengths.
-/

variable {width : Nat}

/-- The keystream of a key and a nonce. -/
abbrev Stream (width : Nat) :=
  List (BitVec width) → List (BitVec width) → Nat → BitVec width

/-- What a ring is used with: a keystream, and the allowance of a key. -/
structure Rules (width : Nat) where
  stream : Stream width
  budget : Nat

/-- The keys and nonces, and the key and nonce in use. -/
structure Ring (width : Nat) where
  keys : List (List (BitVec width))
  nonces : List (List (BitVec width))
  index : Nat
  allowance : Nat
  key : List (BitVec width)
  nonce : List (BitVec width)
  used : Nat
  deriving Repr, DecidableEq

namespace Ring

/-- A message with the keystream of the key in use added. -/
def mask
    (rules : Rules width)
    (ring : Ring width)
    (message : List (BitVec width)) : List (BitVec width) :=
  CounterMode.apply (rules.stream ring.key ring.nonce) ring.used message

/-- The ring after so many symbols of the keystream. -/
def advance (ring : Ring width) (symbols : Nat) : Ring width :=
  { ring with used := ring.used + symbols }

/-- The position of the next key. -/
def next (ring : Ring width) : Nat :=
  (ring.index + 1) % ring.keys.length

/-- The next key, masked. -/
def nextKey (rules : Rules width) (ring : Ring width) : List (BitVec width) :=
  ring.mask rules (ring.keys.getD ring.next [])

/-- The next nonce, masked after the key. -/
def nextNonce
    (rules : Rules width)
    (ring : Ring width) : List (BitVec width) :=
  (ring.advance (ring.nextKey rules).length).mask rules
    (ring.nonces.getD ring.next [])

/-- Take the next key and nonce into use. -/
def turn (rules : Rules width) (ring : Ring width) : Ring width where
  keys := ring.keys.set ring.next (ring.nextKey rules)
  nonces := ring.nonces.set ring.next (ring.nextNonce rules)
  index := ring.next
  allowance := rules.budget
  key := ring.nextKey rules
  nonce := ring.nextNonce rules
  used := 0

/-- The allowance does not cover a charge. -/
def Spent (symbols : Nat) (ring : Ring width) : Prop :=
  ring.allowance = 0 ∨ ring.allowance < symbols

instance (symbols : Nat) (ring : Ring width) :
    Decidable (ring.Spent symbols) :=
  inferInstanceAs (Decidable (_ ∨ _))

/-- Charge some symbols, and turn where the allowance is spent. -/
def charge
    (rules : Rules width)
    (symbols : Nat)
    (ring : Ring width) : Ring width :=
  if ring.Spent symbols then
    ring.turn rules
  else
    { ring with allowance := ring.allowance - symbols }

section Masking

variable (rules : Rules width) (ring : Ring width)

@[simp] theorem mask_length (message : List (BitVec width)) :
    (ring.mask rules message).length = message.length :=
  CounterMode.apply_length _ _ _

/-- Masking twice gives the message back. -/
@[simp] theorem mask_mask (message : List (BitVec width)) :
    ring.mask rules (ring.mask rules message) = message :=
  CounterMode.apply_apply _ _ _

/-- What begins like a masked message is unmasked to the message. -/
theorem mask_front
    {message received : List (BitVec width)}
    (front : ring.mask rules message <+: received) :
    ring.mask rules (received.take message.length) = message := by
  have masked :
      received.take message.length = ring.mask rules message := by
    rw [← mask_length rules ring message]
    exact (List.prefix_iff_eq_take.mp front).symm
  rw [masked, mask_mask]

end Masking

end Ring

end KeyRing
