/-
**Integers as eight bytes.**

An integer is its two's complement in eight bytes, most significant first.  A finite double is
truncated toward zero first, and a text is read as a decimal integer; no other value is an integer.
The order of the bytes is not that of the integers: negative ones come last.
-/

import Strata.Codec.Error
import Strata.Number.Reader
import Strata.Text.Blank
import Strata.Value.Basic

set_option relaxedAutoImplicit false
set_option autoImplicit false

namespace Strata.Codec.LongWord

/-- The eight bytes of an integer. -/
def write (n : Int64) : Bytes := Bytes.ofWord n.toUInt64

/-- The integer of eight bytes. -/
def read (bytes : Bytes) : Except CodecError Int64 :=
  if bytes.length = 8 then .ok bytes.toWord.toInt64 else .error (.truncated 8 bytes.length)

/-- The integer that a value stands for. -/
def integer? : Value → Option Int64
  | .int n => some n
  | .float x => if x.isFinite then some (Number.truncateInt64 x) else none
  | .text s => Number.readInt64? (Text.trim s.toList)
  | _ => none

def encode (v : Value) : Except CodecError Bytes :=
  match integer? v with
  | some n => .ok (write n)
  | none => .error (.unsupportedValue "long" v.kindName)

def decode (bytes : Bytes) : Except CodecError Value := (read bytes).map .int

end Strata.Codec.LongWord
