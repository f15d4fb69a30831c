/-
**What can go wrong between values and bytes.**
-/

import Strata.Bytes

set_option relaxedAutoImplicit false
set_option autoImplicit false

namespace Strata

/-- Why a value cannot be encoded or bytes cannot be decoded. -/
inductive CodecError where
  /-- The bytes are fewer or more than the format asks for. -/
  | truncated (expected actual : Nat)
  | unsupportedVersion (version : UInt8)
  | unknownTag (tag : UInt8)
  | invalidText
  /-- A packed value is no document, or no document of a value. -/
  | malformed
  | unsupportedValue (codec kind : String)
  | unknownCodec (id : String)
  deriving DecidableEq, Repr

/-- The text of a codec error. -/
def CodecError.message : CodecError → String
  | truncated expected actual => s!"Truncated input: expected {expected} bytes, got {actual}"
  | unsupportedVersion version => s!"Unsupported envelope version: {version.toNat}"
  | unknownTag tag => s!"Unknown type tag: 0x{Bytes.hex [tag]}"
  | invalidText => "Invalid UTF-8 in string payload"
  | malformed => "Opaque envelope error"
  | unsupportedValue codec kind => s!"Codec {codec} cannot encode {kind} value"
  | unknownCodec id => s!"Unknown codec: {id}"

end Strata
