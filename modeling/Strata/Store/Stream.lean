/-
**Scans.**

A scan visits the partitions that its range meets, in the order of their keys.  A partition is read
when the scan first needs an entry of it: its entries in range are copied, and the operators run on
the copy.  Writes that come later are not seen there, but are seen in partitions not yet visited.
A partition that lacks an operator, or on which one fails, ends the scan with an error.

* `Store.streamPartition` — what a scan makes of one partition;
* `Stream`, `Store.openScan`, `Stream.next` — scans that are read step by step;
* `Store.scan` — all that a scan returns while nothing is written.
-/

import Strata.Store.Basic

set_option relaxedAutoImplicit false
set_option autoImplicit false

namespace Strata

namespace Store

/-- Runs operators on entries, one after the other. -/
def runOperators (registry : Registry) :
    List Setting → List Entry → Except OperatorError (List Entry)
  | [], entries => .ok entries
  | setting :: settings, entries =>
    match registry.build setting with
    | .error e => .error e
    | .ok operator =>
      match operator entries with
      | .error e => .error e
      | .ok entries => runOperators registry settings entries

/-- What a scan makes of one partition. -/
def streamPartition (store : Store) (index : Nat) (p : Partition) (scanner : Scanner) :
    Except StoreError (List Entry) :=
  match scanner.settings.find? fun setting => !p.runs setting.id with
  | some missing => .error (.missingCapability missing.id index)
  | none =>
    let entries := p.rows.entries scanner.range scanner.mode
    match runOperators store.registry scanner.settings entries with
    | .ok entries => .ok entries
    | .error e => .error (.operator e)

/-- The partitions that a range meets, by their places, from a place on. -/
def meeting (range : KeyRange) : Nat → List Partition → List Nat
  | _, [] => []
  | index, p :: rest =>
    if range.overlapsSpan p.low p.high then index :: meeting range (index + 1) rest
    else meeting range (index + 1) rest

end Store

/-- A scan that is being read. -/
structure Stream where
  scanner : Scanner
  /-- The partitions not yet visited. -/
  pending : List Nat
  /-- What is left of the partition visited last. -/
  buffer : List Entry
  failed : Bool
  deriving Repr

/-- What a scan returns at one step. -/
abbrev ScanItem := Except StoreError Entry

/-- Opens a scan.  A range without keys meets no partition. -/
def Store.openScan (store : Store) (scanner : Scanner) : Stream :=
  { scanner := scanner
    pending := if scanner.range.isEmpty then [] else Store.meeting scanner.range 0 store.partitions
    buffer := []
    failed := false }

namespace Stream

/-- What the scan makes of the partition at a place. -/
def visit (store : Store) (scanner : Scanner) (index : Nat) : Except StoreError (List Entry) :=
  match store.partitions[index]? with
  | some p => store.streamPartition index p scanner
  | none => .ok []

/-- Visits partitions until there is an entry. -/
def advance (store : Store) (scanner : Scanner) : List Nat → Option ScanItem × Stream
  | [] => (none, ⟨scanner, [], [], false⟩)
  | index :: pending =>
    match visit store scanner index with
    | .error e => (some (.error e), ⟨scanner, pending, [], true⟩)
    | .ok [] => advance store scanner pending
    | .ok (entry :: buffer) => (some (.ok entry), ⟨scanner, pending, buffer, false⟩)

/-- The next item of a scan, if there is one, and the scan behind it. -/
def next (store : Store) (s : Stream) : Option ScanItem × Stream :=
  if s.failed then (none, s)
  else
    match s.buffer with
    | entry :: buffer => (some (.ok entry), { s with buffer := buffer })
    | [] => advance store s.scanner s.pending

/-- Up to `count` further items of a scan, and the scan behind them. -/
def take (store : Store) : Nat → Stream → List ScanItem × Stream
  | 0, s => ([], s)
  | count + 1, s =>
    match s.next store with
    | (none, s) => ([], s)
    | (some item, s) =>
      let (items, s) := take store count s
      (item :: items, s)

/-- All that partitions not yet visited give. -/
def drainPending (store : Store) (scanner : Scanner) : List Nat → List ScanItem
  | [] => []
  | index :: pending =>
    match visit store scanner index with
    | .error e => [.error e]
    | .ok entries => entries.map .ok ++ drainPending store scanner pending

/-- All further items of a scan while nothing is written. -/
def drain (store : Store) (s : Stream) : List ScanItem :=
  if s.failed then [] else s.buffer.map .ok ++ drainPending store s.scanner s.pending

@[simp] theorem take_zero (store : Store) (s : Stream) : s.take store 0 = ([], s) := rfl

end Stream

/-- All that a scan returns. -/
def Store.scan (store : Store) (scanner : Scanner) : List ScanItem :=
  (store.openScan scanner).drain store

end Strata
