/-
**Settings of a map.**

Which codecs a map uses for its keys and values, how many values it keeps of each key, and how long
it pauses between two looks while it waits for a key.

* `Settings`, `Settings.standard` — the settings, and those of a map that sets none;
* `Settings.retention`, `Settings.pause` — what the numbers mean;
* `Settings.validate` — whether a map can be opened with them.
-/

import Strata.Map.Error

set_option relaxedAutoImplicit false
set_option autoImplicit false

namespace Strata

/-- The settings of a map. -/
structure Settings where
  /-- The name of the codec of the keys. -/
  keyCodec : String
  /-- The name of the codec of the values. -/
  valueCodec : String
  /-- How many values of a key are kept: only the newest if there is no number, all if it is
  zero. -/
  maxValuesPerKey : Option Nat
  /-- The pause between two looks, in milliseconds. -/
  waitIncrement : Nat
  deriving DecidableEq, Repr

namespace Settings

/-- The codec that preserves order for keys and values, one value of each key, a second. -/
def standard : Settings := ⟨Codec.defaultId, Codec.defaultId, none, 1000⟩

/-- The name of the file in which the settings of a map are kept. -/
def fileName : String := "keyspan.toml"

/-- How many versions the store is to keep; `none` keeps all. -/
def retention (s : Settings) : Option Nat :=
  match s.maxValuesPerKey with
  | none => some 1
  | some 0 => none
  | some n => some n

/-- More than one value of a key may be kept. -/
def isMultiValued (s : Settings) : Bool := s.retention != some 1

/-- The pause between two looks, in nanoseconds. -/
def pause (s : Settings) : Nat := s.waitIncrement * 1000000

/-- Checks the name of a codec. -/
def checkCodec (id : String) : Except MapError Unit :=
  match Codec.named id with
  | .ok _ => .ok ()
  | .error e => .error (.configuration s!"Invalid codec in {fileName}: {e.message}")

/-- Checks that both codecs are known, that of the keys first, and that a pause takes time. -/
def validate (s : Settings) : Except MapError Unit := do
  checkCodec s.keyCodec
  checkCodec s.valueCodec
  if s.waitIncrement = 0 then
    throw (.configuration "wait_increment_ms must be greater than zero")

end Settings

end Strata
