/-
**Sampling by hash.**

A key is in a sample when the digest of seed and key lies between two points of the space of
digests, which stand for two fractions of it.  Whether a key is in depends on nothing but the
descriptor of the sample and the key, so every partition and every scan picks the same keys.  The
upper point is excluded, except that the fraction one includes the last point of all.

The point of a fraction is found digit by digit in base 256: each digit takes the integer part of
what is left, and digits that come out too large are carried over afterwards.

* `hashPoint` — the point of a fraction;
* `Sample` — descriptors, with `Sample.make`, `Sample.toOptions` and `Sample.ofOptions`;
* `SampleFilter`, `SampleFilter.admits` — the filter of a descriptor;
* `sampling` — the operator, for any digest.
-/

import Strata.Operator.Basic

set_option relaxedAutoImplicit false
set_option autoImplicit false

namespace Strata

/-! ### Points of the space of digests -/

/-- The digits of a fraction in base 256, most significant first and each in up to 32 bits, given
what the digit before left. -/
def fractionDigits (fraction : Float) : Nat → Float → List Nat
  | 0, _ => []
  | count + 1, remainder =>
    let product := fraction * Float.ofNat 255 + remainder * Float.ofNat 256
    Number.floorWord32 product ::
      fractionDigits fraction count (product - Number.floor product)

/-- Carries what exceeds a byte over to the digit before, in sums of 32 bits; returns what is
carried out of the first digit. -/
def carryDigits : List Nat → Nat × Bytes
  | [] => (0, [])
  | digit :: rest =>
    let (carry, bytes) := carryDigits rest
    let total := (digit + carry) % 2 ^ 32
    (total / 256, UInt8.ofNat total :: bytes)

/-- The point that stands for a fraction of the space of digests of a length. -/
def hashPoint (length : Nat) (fraction : Float) : Bytes :=
  let (carry, bytes) := carryDigits (fractionDigits fraction length (Float.ofNat 0))
  if 0 < carry then List.replicate length 0xff else bytes

/-! ### Descriptors -/

/-- Which keys a sample holds: a seed, two fractions, and the timestamps it is limited to. -/
structure Sample where
  seed : String
  fromFraction : Float
  toFraction : Float
  fromTimestamp : Option Nat
  toTimestamp : Option Nat

namespace Sample

/-- The sample of all keys. -/
def whole : Sample := ⟨"", Float.ofNat 0, Float.ofNat 1, none, none⟩

/-- The sample limited to timestamps. -/
def during (s : Sample) (fromTimestamp toTimestamp : Option Nat) : Sample :=
  { s with fromTimestamp := fromTimestamp, toTimestamp := toTimestamp }

/-- Equality, fractions compared as numbers. -/
def equal (a b : Sample) : Bool :=
  a.seed == b.seed && a.fromFraction == b.fromFraction && a.toFraction == b.toFraction &&
    a.fromTimestamp == b.fromTimestamp && a.toTimestamp == b.toTimestamp

instance : BEq Sample := ⟨equal⟩

/-! ### The names of the options -/

def operatorId : String := "sampling"

def seedOption : String := "seed"

def fromFractionOption : String := "from_fraction"

def toFractionOption : String := "to_fraction"

def fromTimestampOption : String := "from_ts"

def toTimestampOption : String := "to_ts"

/-! ### Building -/

/-- Checks that a fraction lies between zero and one. -/
def checkFraction (option : String) (fraction : Float) : Except OperatorError Unit :=
  if Float.ofNat 0 ≤ fraction ∧ fraction ≤ Float.ofNat 1 then .ok ()
  else .error (.invalidOption option (Number.text fraction) "fraction must lie in [0, 1]")

/-- The sample of a seed between two fractions. -/
def make (seed : String) (fromFraction toFraction : Float) : Except OperatorError Sample := do
  checkFraction fromFractionOption fromFraction
  checkFraction toFractionOption toFraction
  return ⟨seed, fromFraction, toFraction, none, none⟩

/-- How many random bytes make a seed. -/
def seedLength : Nat := 20

/-- The seed that random bytes make. -/
def seedOf (random : Bytes) : String := Bytes.hex random

/-- A first part of the space of digests, under a seed of random bytes. -/
def ofFraction (random : Bytes) (fraction : Float) : Except OperatorError Sample :=
  make (seedOf random) (Float.ofNat 0) fraction

/-- The descriptor as options. -/
def toOptions (s : Sample) : Options :=
  [(seedOption, s.seed), (fromFractionOption, Number.text s.fromFraction),
      (toFractionOption, Number.text s.toFraction)] ++
    (s.fromTimestamp.map fun n => (fromTimestampOption, Nat.repr n)).toList ++
    (s.toTimestamp.map fun n => (toTimestampOption, Nat.repr n)).toList

/-- The descriptor that options describe. -/
def ofOptions (options : Options) : Except OperatorError Sample := do
  let seed ← options.required operatorId seedOption
  let _ ← options.required operatorId fromFractionOption
  let _ ← options.required operatorId toFractionOption
  let fromFraction ← options.readFloat fromFractionOption
  let toFraction ← options.readFloat toFractionOption
  let sample ← make seed (fromFraction.getD (Float.ofNat 0)) (toFraction.getD (Float.ofNat 1))
  let fromTimestamp ← options.readWord fromTimestampOption
  let toTimestamp ← options.readWord toTimestampOption
  return sample.during fromTimestamp toTimestamp

end Sample

/-! ### The filter -/

/-- How many bytes a digest has. -/
def digestLength : Nat := 32

/-- A descriptor made ready to test keys. -/
structure SampleFilter where
  seed : Bytes
  low : Bytes
  high : Bytes
  /-- The upper point is the last of all and belongs to the sample. -/
  includesTop : Bool
  fromTimestamp : Option Nat
  toTimestamp : Option Nat
  deriving DecidableEq, Repr

namespace SampleFilter

/-- The filter of a descriptor. -/
def ofSample (s : Sample) : SampleFilter :=
  { seed := Bytes.ofText s.seed
    low := hashPoint digestLength s.fromFraction
    high := hashPoint digestLength s.toFraction
    includesTop := s.toFraction == Float.ofNat 1
    fromTimestamp := s.fromTimestamp
    toTimestamp := s.toTimestamp }

/-- The point lies between the two points of the filter. -/
def spans (f : SampleFilter) (point : Bytes) : Bool :=
  decide (¬ point < f.low) && (decide (point < f.high) || (f.includesTop && point == f.high))

/-- The timestamp is within the limits. -/
def during (f : SampleFilter) (timestamp : Nat) : Bool :=
  (f.fromTimestamp.all fun low => decide (low ≤ timestamp)) &&
    f.toTimestamp.all fun high => decide (timestamp ≤ high)

/-- The sample holds the key with this timestamp. -/
def admits (digest : Bytes → Bytes) (f : SampleFilter) (key : Bytes) (timestamp : Nat) : Bool :=
  f.during timestamp && f.spans (digest (f.seed ++ key))

end SampleFilter

/-- The operator that keeps the entries of a sample. -/
def sampling (digest : Bytes → Bytes) (options : Options) : Except OperatorError Operator := do
  let filter := SampleFilter.ofSample (← Sample.ofOptions options)
  return fun entries => .ok (entries.filter fun e => filter.admits digest e.key e.timestamp)

end Strata
