/-
**An encoding whose byte order is the order of the values.**

Every encoding is a version byte, a tag and a payload.  Texts and bytes are their own payload, so
they are ordered byte by byte.  An integer is a word with its sign bit turned over, so that words
are ordered as the integers are.  A double is its integer part as such a word, followed by a second
word that holds its fraction in units of `2 ^ -63`; an integer thus comes before the doubles of its
integer part.  What fits none of this — doubles beyond 64 bits among it — is packed, without any
order.
-/

import Strata.Codec.Error
import Strata.Codec.Packed

set_option relaxedAutoImplicit false
set_option autoImplicit false

namespace Strata.Codec.FixedPoint

/-! ### The head -/

def version : UInt8 := 0

/-- The tag of bytes, the letter `a`. -/
def tagBytes : UInt8 := 0x61

/-- The tag of numbers, the letter `f`. -/
def tagNumber : UInt8 := 0x66

/-- The tag of packed values, the letter `o`. -/
def tagPacked : UInt8 := 0x6f

/-- The tag of texts, the letter `s`. -/
def tagText : UInt8 := 0x73

/-- The payload behind its two-byte head. -/
def tagged (tag : UInt8) (payload : Bytes) : Bytes := version :: tag :: payload

/-! ### Numbers -/

/-- The sign bit of a word. -/
def signBit : UInt64 := 0x8000000000000000

/-- The word of an integer, ordered as the integers are. -/
def biased (n : Int64) : UInt64 := n.toUInt64 ^^^ signBit

/-- The integer of such a word. -/
def unbiased (word : UInt64) : Int64 := (word ^^^ signBit).toInt64

/-- Two to the power of 63, as a double. -/
def fractionScale : Float := Float.ofBits 0x43e0000000000000

/-- The doubles that have an integer part of 64 bits, and the one just above them. -/
def inRange (x : Float) : Bool := -fractionScale ≤ x && x ≤ fractionScale

/-- The integer part of a double in range. -/
def wholePart (x : Float) : Int64 := Number.floorInt64 x

/-- What remains above the integer part of a double in range, in units of `2 ^ -63`, rounded to
the nearest unit and at most `2 ^ 63 - 1`. -/
def fractionPart (x : Float) : Int64 :=
  Number.roundInt64 (fractionScale * (x - Number.ofInt64 (wholePart x)))

/-- The double with an integer part and a fraction of `2 ^ -63`. -/
def join (whole fraction : Int64) : Float :=
  Number.ofInt64 whole + Number.ofInt64 fraction / fractionScale

def encodeInt (n : Int64) : Bytes := tagged tagNumber (Bytes.ofWord (biased n))

def encodeFloat (x : Float) : Bytes :=
  tagged tagNumber (Bytes.ofWord (biased (wholePart x)) ++ Bytes.ofWord (fractionPart x).toUInt64)

/-- Reads the payload of a number: one word is an integer, two words are a double. -/
def decodeNumber (payload : Bytes) : Except CodecError Value :=
  if payload.length = 8 then .ok (.int (unbiased payload.toWord))
  else if payload.length = 16 then
    let whole := unbiased (Bytes.toWord (payload.take 8))
    let fraction := (Bytes.toWord (payload.drop 8)).toInt64
    .ok (.float (join whole fraction))
  else if payload.length < 8 then .error (.truncated 8 payload.length)
  else .error (.truncated 16 payload.length)

/-! ### Values -/

def encode : Value → Bytes
  | .text s => tagged tagText (Bytes.ofText s)
  | .int n => encodeInt n
  | .float x => if inRange x then encodeFloat x else tagged tagPacked (pack (.float x))
  | .bytes b => tagged tagBytes b
  | v => tagged tagPacked (pack v)

/-- Reads the payload behind a tag. -/
def decodePayload (tag : UInt8) (payload : Bytes) : Except CodecError Value :=
  if tag = tagBytes then .ok (.bytes payload)
  else if tag = tagNumber then decodeNumber payload
  else if tag = tagPacked then
    match unpack? payload with
    | some v => .ok v
    | none => .error .malformed
  else if tag = tagText then
    match Bytes.text? payload with
    | some s => .ok (.text s)
    | none => .error .invalidText
  else .error (.unknownTag tag)

def decode : Bytes → Except CodecError Value
  | [] => .error (.truncated 2 0)
  | [_] => .error (.truncated 2 1)
  | v :: tag :: payload =>
    if v = version then decodePayload tag payload else .error (.unsupportedVersion v)

end Strata.Codec.FixedPoint
