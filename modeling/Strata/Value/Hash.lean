/-
**Hash codes of values.**

A hash code is a 32-bit word computed from the value alone, never from an encoding, so that sums of
hash codes do not depend on how the values are stored.  Sequences hash as polynomials in 31; words
of 64 bits fold their halves together; the fields of an object are summed, so their order does not
count.  Equal values have equal codes: the two zeros hash alike.

* `Value.hashCode` — the code;
* `Text.units16` — the UTF-16 units over which texts are hashed.
-/

import Strata.Value.Basic

set_option relaxedAutoImplicit false
set_option autoImplicit false

namespace Strata

/-- The UTF-16 units of a character: one, or a surrogate pair. -/
def Text.units16 (c : Char) : List Nat :=
  let n := c.toNat
  if n < 0x10000 then [n]
  else [0xD800 + (n - 0x10000) / 0x400, 0xDC00 + (n - 0x10000) % 0x400]

namespace Value

/-- Appends one code to a polynomial in 31. -/
def mix (code : UInt32) (next : UInt32) : UInt32 := code * 31 + next

/-- A word of 64 bits, its halves folded together. -/
def foldWord (word : UInt64) : UInt32 := (word ^^^ (word >>> 32)).toUInt32

/-- The hash code of a text, over its UTF-16 units. -/
def hashText (s : String) : UInt32 :=
  (s.toList.flatMap Text.units16).foldl (fun code unit => mix code (UInt32.ofNat unit)) 0

/-- The word that stands for a double: equal doubles share it, and so do all NaNs. -/
def hashWord (x : Float) : UInt64 := if x == 0 then 0 else x.toBits

/-- A byte as a signed number, in 32 bits. -/
def signedByte (b : UInt8) : UInt32 := if b < 128 then b.toUInt32 else b.toUInt32 - 256

mutual

/-- The 32-bit hash code of a value. -/
def hashCode : Value → UInt32
  | null => 0
  | bool true => 1231
  | bool false => 1237
  | int n => foldWord n.toUInt64
  | float x => foldWord (hashWord x)
  | text s => hashText s
  | bytes b => b.foldl (fun code byte => mix code (signedByte byte)) 1
  | array items => hashItems 1 items
  | object fields => hashFields 0 fields

/-- Continues the polynomial of an array. -/
def hashItems (code : UInt32) : List Value → UInt32
  | [] => code
  | item :: items => hashItems (mix code (hashCode item)) items

/-- Continues the sum of an object. -/
def hashFields (code : UInt32) : List (String × Value) → UInt32
  | [] => code
  | (name, v) :: fields => hashFields (code + (hashText name ^^^ hashCode v)) fields

end

end Value

end Strata
