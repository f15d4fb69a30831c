/-
**Aggregates of views.**

An aggregate puts an operator on that leaves one entry of every partition, and folds the values of
these entries.  Where a partition lacks the operator the fold may be made without it: the view is
scanned partition by partition, and the operator runs on what the scan returns.

* `Aggregation` — an operator and the fold of what it leaves;
* `View.aggregate` — its result;
* `View.aggregateBySpan`, `View.aggregateWithFallback` — its result where the operator is missing;
* `View.size`, `View.checksum`, `View.stats` — the aggregates of every view.
-/

import Strata.View.Derive
import Strata.View.Scan

set_option relaxedAutoImplicit false
set_option autoImplicit false

namespace Strata

/-- An operator that leaves one entry of a partition, and the fold of what it leaves. -/
structure Aggregation (α : Type) where
  operatorId : String
  options : Options
  /-- The result over no partitions. -/
  identity : α
  fold : α → Bytes → Except MapError α

namespace Aggregation

/-- The number of entries, in 64 bits. -/
def count : Aggregation UInt64 :=
  { operatorId := "count"
    options := []
    identity := 0
    fold := fun total bytes =>
      match readCount bytes with
      | .ok n => .ok (total + UInt64.ofNat n)
      | .error e => .error (.ofOperatorError e) }

/-- The sums of the hash codes of keys and values, those of the partitions joined bit by bit. -/
def checksum : Aggregation UInt64 :=
  { operatorId := "checksum"
    options := []
    identity := 0
    fold := fun total bytes =>
      match Codec.LongWord.read bytes with
      | .ok n => .ok (total ^^^ n.toUInt64)
      | .error e => .error (.decode e) }

/-- The summary of the values that are numbers. -/
def summary : Aggregation (Summary Float) :=
  { operatorId := "stats"
    options := []
    identity := Summary.empty
    fold := fun total bytes =>
      match readSummary bytes with
      | .ok s => .ok (total.merge s)
      | .error e => .error (.ofOperatorError e) }

/-- The values that an operator leaves, one by one. -/
def collect (id : String) (options : Options) : Aggregation (List Bytes) :=
  { operatorId := id
    options := options
    identity := []
    fold := fun known bytes => .ok (known ++ [bytes]) }

/-- Folds the values of entries, up to the first fault. -/
def foldItems {α : Type} (a : Aggregation α) :
    List (Except MapError Entry) → α → Except MapError α
  | [], total => .ok total
  | .error e :: _, _ => .error e
  | .ok entry :: rest, total =>
    match a.fold total entry.value with
    | .error e => .error e
    | .ok total => a.foldItems rest total

end Aggregation

namespace View

variable {α : Type}

/-- The result of an aggregate. -/
def aggregate (v : View) (store : Store) (a : Aggregation α) : Except MapError α := do
  let made ← v.aggregateView a.operatorId a.options
  let items ← made.scan store none made.top.mode
  a.foldItems items a.identity

/-- What an operator leaves of the entries of a span. -/
def processSpan (v : View) (store : Store) (setting : Setting) (mode : ScanMode)
    (span : Option Bytes × Option Bytes) : Except MapError (List Entry) := do
  let items ← v.scan store (some (KeyRange.halfOpen span.1 span.2)) mode
  let entries ← items.mapM id
  let operator ← (v.schema.registry.build setting).mapError MapError.ofOperatorError
  (operator entries).mapError MapError.ofOperatorError

/-- Folds what an operator leaves of the entries of every span. -/
def foldSpans (v : View) (store : Store) (a : Aggregation α) (setting : Setting) (mode : ScanMode) :
    List (Option Bytes × Option Bytes) → α → Except MapError α
  | [], total => .ok total
  | span :: spans, total => do
    let left ← v.processSpan store setting mode span
    let total ← a.foldItems (left.map .ok) total
    v.foldSpans store a setting mode spans total

/-- The result of an aggregate whose operator does not run next to the data. -/
def aggregateBySpan (v : View) (store : Store) (a : Aggregation α) : Except MapError α := do
  let made ← v.aggregateView a.operatorId a.options
  match made.top.setting with
  | none => return a.identity
  | some setting =>
    if made.isEmptyView then return a.identity
    else v.foldSpans store a setting made.top.mode store.bounds a.identity

/-- The result of an aggregate, with or without the help of the partitions. -/
def aggregateWithFallback (v : View) (store : Store) (a : Aggregation α) : Except MapError α :=
  match v.aggregate store a with
  | .error (.missingCapability _ _) => v.aggregateBySpan store a
  | result => result

/-! ### The aggregates of every view -/

/-- How many entries there are. -/
def size (v : View) (store : Store) : Except MapError UInt64 := v.aggregate store .count

/-- The sums of the hash codes of keys and values, packed in a word. -/
def checksum (v : View) (store : Store) : Except MapError UInt64 := v.aggregate store .checksum

/-- The summary of the values that are numbers. -/
def stats (v : View) (store : Store) : Except MapError (Summary Float) := v.aggregate store .summary

end View

end Strata
