/-
**Deriving views.**

A restriction narrows the range of keys.  Every other derivation puts an operator on: it is checked
against the values below it, gets the options that say how to read them, and takes the next
priority, so operators run in the order of their derivation.  All checks are made when the view is
derived; over an empty view they are made all the same, but no operator is put on.

* `View.restrict`, `View.subMap`, `View.headMap`, `View.tailMap` — ranges of keys;
* `View.stack` — any operator, and what it makes of the format of values;
* `View.sample`, `View.matching`, `View.keyToKey`, `View.rowStats`, `View.derive`, … — particular
  ones.
-/

import Strata.View.Basic

set_option relaxedAutoImplicit false
set_option autoImplicit false

namespace Strata

namespace View

/-! ### Ranges -/

/-- The entries whose key is in a range. -/
def restrict (v : View) (range : KeyRange) : View :=
  match v.top.range.intersect range with
  | some clipped => v.child { v.top with kind := .restricted, setting := none, range := clipped }
  | none => v.child { v.top with kind := .empty, setting := none }

/-- The bytes of a key. -/
def encodeKey (v : View) (key : Value) : Except MapError Bytes :=
  (v.schema.keyCodec.encode key).mapError .decode

/-- The entries from one key on and before another. -/
def subMap (v : View) (low high : Value) : Except MapError View := do
  let low ← v.encodeKey low
  let high ← v.encodeKey high
  return v.restrict (KeyRange.halfOpen (some low) (some high))

/-- The entries before a key. -/
def headMap (v : View) (high : Value) : Except MapError View := do
  let high ← v.encodeKey high
  return v.restrict (KeyRange.halfOpen none (some high))

/-- The entries from a key on. -/
def tailMap (v : View) (low : Value) : Except MapError View := do
  let low ← v.encodeKey low
  return v.restrict (KeyRange.halfOpen (some low) none)

/-! ### Operators -/

/-- The options with the codecs by which keys and values below are read. -/
def inputOptions (v : View) (options : Options) : Options :=
  let options := options.setDefault Options.keyCodec v.schema.keyCodec.id
  match v.top.format with
  | .coded codec => options.setDefault Options.valueInputCodec codec.id
  | .summary => options

/-- The codec of typed values that an operator makes: the one that an option names, or the one
asked for, or that of the map. -/
def outputCodec (v : View) (options : Options) (asked : Option Codec) : Except MapError Codec :=
  match options.get? Options.valueOutputCodec with
  | some id => (Codec.named id).mapError fun e => .configuration e.message
  | none => .ok (asked.getD v.schema.valueCodec)

/-- The format of the values that an operator makes, and the options with the codec of typed
ones. -/
def outputFormat (v : View) (d : Descriptor) (options : Options) (asked : Option Codec) :
    Except MapError (ValueReading × Options) :=
  match d.output with
  | none => .ok (v.top.format, options)
  | some .long => .ok (.coded .long, options)
  | some .summary => .ok (.summary, options)
  | some .typed =>
    (v.outputCodec options asked).map fun codec =>
      (.coded codec, options.set Options.valueOutputCodec codec.id)

/-- The kind of view that an operator makes. -/
def kindOf (d : Descriptor) (id : String) : Derivation :=
  if id = Sample.operatorId then .sampled
  else
    match d.kind with
    | .filter => .filtered
    | .transform | .rowTransform => .transformed
    | .aggregate => .aggregated

/-- The layer that puts an operator on; over an empty view it puts none on. -/
def operatorLayer (v : View) (d : Descriptor) (setting : Setting) (format : ValueReading)
    (mode : ScanMode) : Layer :=
  { kind := kindOf d setting.id
    setting := if v.isEmptyView then none else some setting
    range := v.top.range
    mode := mode
    valueType := d.outputType v.top.valueType
    format := format
    nextPriority := if v.isEmptyView then setting.priority else setting.priority + 1 }

/-- Puts an operator on. -/
def stack (v : View) (id : String) (options : Options) (asked : Option Codec) (mode : ScanMode) :
    Except MapError View := do
  let d ← (v.schema.registry.descriptor id).mapError MapError.ofOperatorError
  (d.checkInput v.top.valueType).mapError MapError.ofOperatorError
  let (format, options) ← v.outputFormat d (v.inputOptions options) asked
  let setting : Setting := ⟨id, v.top.nextPriority, options⟩
  let _ ← (v.schema.registry.build setting).mapError fun e => .configuration e.message
  return v.child (v.operatorLayer d setting format mode)

/-- The entries of a sample. -/
def sample (v : View) (s : Sample) : Except MapError View :=
  v.stack Sample.operatorId s.toOptions none v.top.mode

/-- The entries of the first part of the space of digests, under a seed of random bytes. -/
def sampleFraction (v : View) (random : Bytes) (fraction : Float) : Except MapError View := do
  v.sample (← (Sample.ofFraction random fraction).mapError MapError.ofOperatorError)

/-- The entries written between two timestamps. -/
def during (v : View) (fromTimestamp toTimestamp : Option Nat) : Except MapError View :=
  v.sample (Sample.whole.during fromTimestamp toTimestamp)

/-- The entries whose key and value match patterns. -/
def matching (v : View) (keyPattern valuePattern : Option String) : Except MapError View :=
  v.stack PatternFilter.operatorId
    ((keyPattern.map fun p => (PatternFilter.keyOption, p)).toList ++
      (valuePattern.map fun p => (PatternFilter.valueOption, p)).toList)
    none v.top.mode

/-- The entries with their keys in the place of their values. -/
def keyToKey (v : View) : Except MapError View :=
  v.stack "key_to_key" [] (some v.schema.keyCodec) v.top.mode

/-- What an operator makes of the entries. -/
def derive (v : View) (id : String) (options : Options) (asked : Option Codec) :
    Except MapError View :=
  v.stack id options asked v.top.mode

/-- What an operator makes of all versions of the entries. -/
def deriveMulti (v : View) (id : String) (options : Options) (asked : Option Codec) :
    Except MapError View :=
  v.stack id options asked .allVersions

/-- A summary of all versions of every key. -/
def rowStats (v : View) : Except MapError View := v.stack "row_stats" [] none .allVersions

/-- What an aggregate leaves of every partition. -/
def aggregateView (v : View) (id : String) (options : Options) : Except MapError View := do
  let made ← v.stack id options none v.top.mode
  if made.kind = .aggregated ∨ made.kind = .empty then return made
  else throw (.configuration s!"{id} is not an aggregate operator")

end View

end Strata
