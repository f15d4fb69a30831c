/-
**SHA-256.**

A message is padded with a one bit, zeros and its length in bits to whole blocks of 64 bytes.  Each
block is spread into 64 words, which are mixed into a state of eight words in turn; the state after
the last block is the digest.

* `Sha256.pad`, `Sha256.blocks` — the padded message and its blocks;
* `Sha256.schedule` — the 64 words of a block;
* `Sha256.compress` — one block mixed into the state;
* `Sha256.digest` — the 32 bytes of the digest.
-/

import Strata.Bytes

set_option relaxedAutoImplicit false
set_option autoImplicit false

namespace Strata.Sha256

/-- The round constants: the first fractional bits of the cube roots of the first 64 primes. -/
def roundConstants : List UInt32 :=
  [0x428a2f98, 0x71374491, 0xb5c0fbcf, 0xe9b5dba5, 0x3956c25b, 0x59f111f1, 0x923f82a4, 0xab1c5ed5,
    0xd807aa98, 0x12835b01, 0x243185be, 0x550c7dc3, 0x72be5d74, 0x80deb1fe, 0x9bdc06a7, 0xc19bf174,
    0xe49b69c1, 0xefbe4786, 0x0fc19dc6, 0x240ca1cc, 0x2de92c6f, 0x4a7484aa, 0x5cb0a9dc, 0x76f988da,
    0x983e5152, 0xa831c66d, 0xb00327c8, 0xbf597fc7, 0xc6e00bf3, 0xd5a79147, 0x06ca6351, 0x14292967,
    0x27b70a85, 0x2e1b2138, 0x4d2c6dfc, 0x53380d13, 0x650a7354, 0x766a0abb, 0x81c2c92e, 0x92722c85,
    0xa2bfe8a1, 0xa81a664b, 0xc24b8b70, 0xc76c51a3, 0xd192e819, 0xd6990624, 0xf40e3585, 0x106aa070,
    0x19a4c116, 0x1e376c08, 0x2748774c, 0x34b0bcb5, 0x391c0cb3, 0x4ed8aa4a, 0x5b9cca4f, 0x682e6ff3,
    0x748f82ee, 0x78a5636f, 0x84c87814, 0x8cc70208, 0x90befffa, 0xa4506ceb, 0xbef9a3f7, 0xc67178f2]

/-- The eight words of the state. -/
structure State where
  a : UInt32
  b : UInt32
  c : UInt32
  d : UInt32
  e : UInt32
  f : UInt32
  g : UInt32
  h : UInt32
  deriving DecidableEq, Repr

/-- The first state: the first fractional bits of the square roots of the first eight primes. -/
def State.initial : State :=
  ⟨0x6a09e667, 0xbb67ae85, 0x3c6ef372, 0xa54ff53a, 0x510e527f, 0x9b05688c, 0x1f83d9ab, 0x5be0cd19⟩

/-- Word by word addition. -/
def State.add (s t : State) : State :=
  ⟨s.a + t.a, s.b + t.b, s.c + t.c, s.d + t.d, s.e + t.e, s.f + t.f, s.g + t.g, s.h + t.h⟩

/-- The bytes of a state. -/
def State.toBytes (s : State) : Bytes :=
  [s.a, s.b, s.c, s.d, s.e, s.f, s.g, s.h].flatMap fun word => Bytes.ofNat 4 word.toNat

/-! ### Padding -/

/-- How many zeros follow the one bit so that the length ends a block. -/
def zeros (size : Nat) : Nat := (119 - size % 64) % 64

/-- The message with its padding. -/
def pad (message : Bytes) : Bytes :=
  message ++ 0x80 :: (List.replicate (zeros message.length) 0 ++ Bytes.ofNat 8 (8 * message.length))

/-- The first `count` blocks of 64 bytes. -/
def blocks : Nat → Bytes → List Bytes
  | 0, _ => []
  | count + 1, bytes => bytes.take 64 :: blocks count (bytes.drop 64)

/-! ### Rounds -/

/-- Rotation to the right. -/
def rotate (word : UInt32) (n : UInt32) : UInt32 := (word >>> n) ||| (word <<< (32 - n))

/-- The big-endian words of a block. -/
def words : Nat → Bytes → List UInt32
  | 0, _ => []
  | count + 1, bytes => UInt32.ofNat (Bytes.toNat (bytes.take 4)) :: words count (bytes.drop 4)

/-- The next word of a schedule, from the sixteen before it. -/
def nextWord (known : Array UInt32) : UInt32 :=
  let word (back : Nat) : UInt32 := known.getD (known.size - back) 0
  let s0 := rotate (word 15) 7 ^^^ rotate (word 15) 18 ^^^ (word 15 >>> 3)
  let s1 := rotate (word 2) 17 ^^^ rotate (word 2) 19 ^^^ (word 2 >>> 10)
  word 16 + s0 + word 7 + s1

/-- The 64 words of a block: its own sixteen and 48 computed from them. -/
def schedule (block : Bytes) : List UInt32 :=
  let first := (words 16 block).toArray
  ((List.range 48).foldl (fun known _ => known.push (nextWord known)) first).toList

/-- One round: mixes a constant and a word of the schedule into the state. -/
def round (s : State) (input : UInt32 × UInt32) : State :=
  let s1 := rotate s.e 6 ^^^ rotate s.e 11 ^^^ rotate s.e 25
  let choice := (s.e &&& s.f) ^^^ ((s.e ^^^ 0xffffffff) &&& s.g)
  let t1 := s.h + s1 + choice + input.1 + input.2
  let s0 := rotate s.a 2 ^^^ rotate s.a 13 ^^^ rotate s.a 22
  let majority := (s.a &&& s.b) ^^^ (s.a &&& s.c) ^^^ (s.b &&& s.c)
  ⟨t1 + (s0 + majority), s.a, s.b, s.c, s.d + t1, s.e, s.f, s.g⟩

/-- Mixes a block into the state. -/
def compress (s : State) (block : Bytes) : State :=
  s.add ((roundConstants.zip (schedule block)).foldl round s)

/-- The digest of a message. -/
def digest (message : Bytes) : Bytes :=
  let padded := pad message
  ((blocks (padded.length / 64) padded).foldl compress State.initial).toBytes

end Strata.Sha256
