/-
**Operators that change or gather values.**

One operator puts every key in the place of its value.  One makes a single summary of all versions
of a key.  Three gather a whole partition into one entry, which takes its key and its timestamp from
the last entry of the partition; of a partition without entries nothing is left.

* `keyCopy`, `rowSummary` — transforms of entries and of rows;
* `countAll`, `checksumAll`, `summarizeAll` — aggregates.
-/

import Strata.Operator.Partial
import Strata.Value.FieldOrder

set_option relaxedAutoImplicit false
set_option autoImplicit false

namespace Strata

/-! ### Transforms -/

/-- The entry with its key, decoded and encoded anew, in the place of its value.  The fields of
objects in the key are written in the order in which they come. -/
def copyKey (order : FieldOrder) (keyCodec outputCodec : Codec) (e : Entry) :
    Except OperatorError Entry := do
  let key ← OperatorError.ofCodec (keyCodec.decode e.key)
  let value ← OperatorError.ofCodec (outputCodec.encode (order.arrange e key))
  return { e with value := value }

/-- The operator that puts every key in the place of its value. -/
def keyCopy (order : FieldOrder) (options : Options) : Except OperatorError Operator := do
  let keyCodec ← options.codec Options.keyCodec
  let outputCodec ←
    if (options.get? Options.valueOutputCodec).isSome then options.codec Options.valueOutputCodec
    else .ok keyCodec
  return fun entries => entries.mapM (copyKey order keyCodec outputCodec)

/-- Adds the number that an entry's value stands for, if it stands for one. -/
def addNumber (codec : Codec) (s : Summary Float) (e : Entry) :
    Except OperatorError (Summary Float) := do
  let v ← OperatorError.ofCodec (codec.decode e.value)
  return (v.number?.elim s s.add)

/-- The summary of the numbers among the values of entries. -/
def summarize (codec : Codec) (entries : List Entry) : Except OperatorError (Summary Float) :=
  entries.foldlM (addNumber codec) Summary.empty

/-- The entry that stands for the versions of a key: their summary under the newest timestamp. -/
def summarizeRow (codec : Codec) (row : List Entry) : Except OperatorError (Option Entry) := do
  let s ← summarize codec row
  return row.head?.map fun newest => { newest with value := writeSummary s }

/-- The operator that makes one summary of all versions of a key. -/
def rowSummary (options : Options) : Except OperatorError Operator := do
  let codec ← options.codec Options.valueInputCodec
  return fun entries => ((rows entries).mapM (summarizeRow codec)).map fun found =>
    found.filterMap id

/-! ### Aggregates -/

/-- The one entry that an aggregate leaves of a partition. -/
def gather (value : List Entry → Except OperatorError Bytes) : Operator := fun entries =>
  match entries.getLast? with
  | none => .ok []
  | some last => (value entries).map fun bytes => [{ last with value := bytes }]

/-- The operator that counts the entries. -/
def countAll (_ : Options) : Except OperatorError Operator :=
  .ok (gather fun entries => .ok (writeCount entries.length))

/-- Adds the hash codes of an entry's key and value. -/
def addHashes (keyCodec valueCodec : Codec) (c : Checksum) (e : Entry) :
    Except OperatorError Checksum := do
  let key ← OperatorError.ofCodec (keyCodec.decode e.key)
  let value ← OperatorError.ofCodec (valueCodec.decode e.value)
  return c.add key value

/-- The operator that adds up the hash codes of all keys and values. -/
def checksumAll (options : Options) : Except OperatorError Operator := do
  let keyCodec ← options.codec Options.keyCodec
  let valueCodec ← options.codec Options.valueInputCodec
  return gather fun entries =>
    (entries.foldlM (addHashes keyCodec valueCodec) Checksum.empty).map fun c =>
      Codec.LongWord.write c.packed.toInt64

/-- The operator that summarizes the numbers among the values. -/
def summarizeAll (options : Options) : Except OperatorError Operator := do
  let codec ← options.codec Options.valueInputCodec
  return gather fun entries => (summarize codec entries).map writeSummary

end Strata
