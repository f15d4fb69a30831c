/-
**Codecs.**

A codec turns values into the bytes that a store sorts, and back.  Codecs are known by name, so
that an operator next to the data can use the one its client used.

* `Codec` — the three codecs, with `Codec.id` and `Codec.named`;
* `Codec.encode`, `Codec.decode` — the two directions;
* `Codec.preservesOrder` — whether byte order is value order.
-/

import Strata.Codec.FixedPoint
import Strata.Codec.LongWord

set_option relaxedAutoImplicit false
set_option autoImplicit false

namespace Strata

/-- The codecs. -/
inductive Codec where
  /-- Numbers, texts and bytes in their order. -/
  | fixedPoint
  /-- Integers in eight bytes. -/
  | long
  /-- Any value, in no order. -/
  | packed
  deriving DecidableEq, Repr

namespace Codec

/-- The name of a codec. -/
def id : Codec → String
  | fixedPoint => "fixed_point"
  | long => "long"
  | packed => "opaque"

/-- The codec of a name. -/
def named (id : String) : Except CodecError Codec :=
  if id = "fixed_point" then .ok fixedPoint
  else if id = "long" then .ok long
  else if id = "opaque" then .ok packed
  else .error (.unknownCodec id)

@[simp] theorem named_id (c : Codec) : named c.id = .ok c := by cases c <;> rfl

/-- The name of the codec used when none is named. -/
def defaultId : String := "fixed_point"

def encode : Codec → Value → Except CodecError Bytes
  | fixedPoint, v => .ok (FixedPoint.encode v)
  | long, v => LongWord.encode v
  | packed, v => .ok (pack v)

def decode : Codec → Bytes → Except CodecError Value
  | fixedPoint, bytes => FixedPoint.decode bytes
  | long, bytes => LongWord.decode bytes
  | packed, bytes =>
    match unpack? bytes with
    | some v => .ok v
    | none => .error .malformed

/-- The order of the bytes is the order of the values. -/
def preservesOrder : Codec → Bool
  | fixedPoint => true
  | _ => false

end Codec

end Strata
