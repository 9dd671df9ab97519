import RdRand.CounterMode
import RdRand.Device

namespace RdRand

/-!
# OpenSSL and the allocator

The library calls OpenSSL for a cipher in counter mode and for random bytes,
and the C library for memory.  What these calls do is given by the number of
the call, so that two runs with the same environment see the same outcomes.
-/

/--
The behaviour of the functions outside the library.  `leftover` is what an
array on the stack holds when a cipher call leaves it unwritten.
-/
structure OpenSsl where
  keystream : List Byte → List Byte → Nat → Byte
  encryptOk : Nat → Bool
  initOk : Nat → Bool
  randBytes : Nat → Nat → Option (List Byte)
  randBytes_length :
    ∀ {call num bytes},
      randBytes call num = some bytes → bytes.length = num
  leftover : Nat → Nat → List Byte
  leftover_length : ∀ call num, (leftover call num).length = num
  mallocOk : Nat → Bool

namespace OpenSsl

/--
Every call succeeds, with a given keystream and random bytes that depend on the
call only.
-/
def reliable
    (stream : List Byte → List Byte → Nat → Byte)
    (random : Nat → Byte) : OpenSsl where
  keystream := stream
  encryptOk := fun _ => true
  initOk := fun _ => true
  randBytes := fun call num => some (List.replicate num (random call))
  randBytes_length := by
    intro call num bytes drew
    cases drew
    exact List.length_replicate
  leftover := fun _ num => List.replicate num 0
  leftover_length := fun _ _ => List.length_replicate
  mallocOk := fun _ => true

/-- A keystream that counts from the sum of the bytes of key and nonce on. -/
def countingStream (key nonce : List Byte) (offset : Nat) : Byte :=
  (key ++ nonce).foldl BitVec.add (BitVec.ofNat 8 offset)

/-- A reliable environment whose calls and positions count the bytes. -/
def sample : OpenSsl :=
  reliable countingStream (BitVec.ofNat 8)

/-- Every cipher call succeeds. -/
structure CipherSucceeds (ssl : OpenSsl) : Prop where
  encrypt : ∀ call, ssl.encryptOk call = true
  init : ∀ call, ssl.initOk call = true

/-- Every call for random bytes succeeds. -/
def RandSucceeds (ssl : OpenSsl) : Prop :=
  ∀ call num, (ssl.randBytes call num).isSome = true

theorem RandSucceeds.draws
    {ssl : OpenSsl}
    (rand : ssl.RandSucceeds)
    (call num : Nat) :
    ∃ bytes, ssl.randBytes call num = some bytes :=
  Option.isSome_iff_exists.mp (rand call num)

theorem sample_cipherSucceeds : sample.CipherSucceeds :=
  ⟨fun _ => rfl, fun _ => rfl⟩

theorem sample_randSucceeds : sample.RandSucceeds :=
  fun _ _ => rfl

end OpenSsl

/--
An `EVP_CIPHER_CTX`: its identity (`none` for NULL), the key and nonce it was
last keyed with, and the bytes of keystream used since.
-/
structure CipherContext where
  identity : Option Nat
  keyed : Option (List Byte × List Byte)
  used : Nat
  deriving Repr, DecidableEq

namespace CipherContext

/-- What a context produces for some input. -/
def output
    (context : CipherContext)
    (ssl : OpenSsl)
    (input : List Byte) : Option (List Byte) :=
  context.keyed.map fun (key, nonce) =>
    CounterMode.apply (ssl.keystream key nonce) context.used input

/-- A context after it has produced some output. -/
def advance
    (context : CipherContext)
    (bytes : Nat) : CipherContext :=
  { context with used := context.used + bytes }

/-- A context right after it was keyed. -/
def key
    (context : CipherContext)
    (bytes nonce : List Byte) : CipherContext :=
  { context with keyed := some (bytes, nonce), used := 0 }

theorem output_length
    {context : CipherContext}
    {ssl : OpenSsl}
    {input produced : List Byte}
    (success : context.output ssl input = some produced) :
    produced.length = input.length := by
  obtain ⟨⟨key, nonce⟩, _, rfl⟩ := Option.map_eq_some_iff.mp success
  exact CounterMode.apply_length _ _ _

end CipherContext

end RdRand
