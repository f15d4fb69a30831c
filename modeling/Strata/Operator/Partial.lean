/-
**Partial results.**

An aggregate leaves one value per partition, and whoever asked for it puts these values together.
A count is eight bytes; a checksum is eight bytes too, the sums of the hash codes of the keys and of
the values in its two halves; a summary is a MessagePack array of its six numbers.

* `writeCount`, `readCount`;
* `Checksum`, `Checksum.add`, `Checksum.packed`;
* `writeSummary`, `readSummary` — a summary may also be read from a map that names its numbers.
-/

import Strata.MessagePack
import Strata.Operator.Basic
import Strata.Summary
import Strata.Value.Hash

set_option relaxedAutoImplicit false
set_option autoImplicit false

namespace Strata

/-! ### Counts -/

/-- A count as eight bytes. -/
def writeCount (count : Nat) : Bytes := Codec.LongWord.write (UInt64.ofNat count).toInt64

/-- The count that eight bytes hold. -/
def readCount (bytes : Bytes) : Except OperatorError Nat :=
  (OperatorError.ofCodec (Codec.LongWord.read bytes)).map fun n => n.toUInt64.toNat

/-! ### Checksums -/

/-- The sums of the hash codes of keys and of values. -/
structure Checksum where
  keys : UInt32
  values : UInt32
  deriving DecidableEq, Repr

namespace Checksum

def empty : Checksum := ⟨0, 0⟩

/-- Adds the hash codes of a key and a value. -/
def add (c : Checksum) (key value : Value) : Checksum :=
  ⟨c.keys + key.hashCode, c.values + value.hashCode⟩

/-- Both sums in one word, that of the keys in its upper half. -/
def packed (c : Checksum) : UInt64 := (c.keys.toUInt64 <<< 32) ||| c.values.toUInt64

/-- The two sums of a word. -/
def ofPacked (word : UInt64) : Checksum := ⟨(word >>> 32).toUInt32, word.toUInt32⟩

/-- The sums over a list of keys and values. -/
def ofPairs (pairs : List (Value × Value)) : Checksum :=
  pairs.foldl (fun c pair => c.add pair.1 pair.2) empty

end Checksum

/-! ### Summaries -/

open MessagePack

/-- A summary as a document. -/
def summaryDoc (s : Summary Float) : Doc :=
  .array [.unsigned s.count, .float s.mean, .float s.deviations, .float s.min, .float s.max,
    .float s.sum]

/-- A summary as bytes. -/
def writeSummary (s : Summary Float) : Bytes := (summaryDoc s).write

/-- The count that a document holds. -/
def countOf? (doc : Doc) : Option Nat :=
  match Codec.integer? doc with
  | some n => if 0 ≤ n ∧ n < 2 ^ 64 then some n.toNat else none
  | none => none

/-- The numbers of a summary that have been found in a map. -/
structure SummaryFields where
  count : Option Nat
  mean : Option Float
  deviations : Option Float
  min : Option Float
  max : Option Float
  sum : Option Float

/-- No number has been found. -/
def SummaryFields.none : SummaryFields := ⟨.none, .none, .none, .none, .none, .none⟩

/-- The summary, if all of its numbers have been found. -/
def SummaryFields.complete? (f : SummaryFields) : Option (Summary Float) := do
  return ⟨← f.count, ← f.mean, ← f.deviations, ← f.min, ← f.max, ← f.sum⟩

/-- The names of the numbers of a summary, in their order. -/
def summaryNames : List String := ["n", "mean", "m2", "min", "max", "sum"]

/-- The place of the number that a key of a map names, by its name or by its place; a place beyond
the last stands for what is passed over, and a key that is neither is refused. -/
def summaryPlace? : Doc → Option Nat
  | .text name | .binary name =>
    some ((summaryNames.findIdx? fun known => Bytes.ofText known == name).getD summaryNames.length)
  | .unsigned n => some n
  | _ => none

/-- Puts a number into an empty place. -/
def fill? {α : Type} (known : Option α) (found : Option α) : Option (Option α) :=
  if known.isSome then none else found.map some

/-- Takes over one entry of a map; no number may be given twice. -/
def SummaryFields.put? (f : SummaryFields) (entry : Doc × Doc) : Option SummaryFields :=
  match summaryPlace? entry.1 with
  | Option.none => Option.none
  | some 0 => (fill? f.count (countOf? entry.2)).map fun x => { f with count := x }
  | some 1 => (fill? f.mean (Codec.number? entry.2)).map fun x => { f with mean := x }
  | some 2 => (fill? f.deviations (Codec.number? entry.2)).map fun x => { f with deviations := x }
  | some 3 => (fill? f.min (Codec.number? entry.2)).map fun x => { f with min := x }
  | some 4 => (fill? f.max (Codec.number? entry.2)).map fun x => { f with max := x }
  | some 5 => (fill? f.sum (Codec.number? entry.2)).map fun x => { f with sum := x }
  | some _ => some f

/-- The summary that a document holds. -/
def summaryOfDoc? : Doc → Option (Summary Float)
  | .array [count, mean, deviations, min, max, sum] => do
    return ⟨← countOf? count, ← Codec.number? mean, ← Codec.number? deviations, ← Codec.number? min,
      ← Codec.number? max, ← Codec.number? sum⟩
  | .map entries => do
    let fields ← entries.foldlM SummaryFields.put? SummaryFields.none
    fields.complete?
  | _ => none

/-- The summary that bytes hold. -/
def readSummary (bytes : Bytes) : Except OperatorError (Summary Float) :=
  match (Doc.read? bytes).bind fun found => summaryOfDoc? found.1 with
  | some s => .ok s
  | none => .error (.codec .malformed)

/-- A summary as a value: an object of its count, its mean, its sample variance, its extremes and
its sum. -/
def summaryValue (s : Summary Float) : Value :=
  Value.ofFields
    [("n", .int (UInt64.ofNat s.count).toInt64), ("mean", .float s.average),
      ("variance", .float s.variance), ("min", .float s.min), ("max", .float s.max),
      ("sum", .float s.sum)]

end Strata
