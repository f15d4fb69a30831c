/-
**Scanning a view.**

A view compiles to a scanner: the map itself starts one, a restriction sets its range, and every
operator is installed in it.  An empty view compiles to none and is never scanned.

* `View.scanner?` — what a view compiles to;
* `View.openStream` — an open scan of a view, perhaps of some of its keys only;
* `View.scan` — all that it returns;
* `View.decodeItem` — an entry with its key and value decoded.
-/

import Strata.Store.Stream
import Strata.View.Basic

set_option relaxedAutoImplicit false
set_option autoImplicit false

namespace Strata

/-- The scan that returns nothing. -/
def Stream.nothing : Stream := ⟨Scanner.ofRange KeyRange.full .latest, [], [], false⟩

namespace View

/-! ### Compiling -/

/-- The scanner of a pile of layers, given from the top, unless one of them is empty. -/
def scannerOf (mode : ScanMode) : List Layer → Except StoreError (Option Scanner)
  | [] => .ok none
  | layer :: below =>
    match layer.kind with
    | .empty => .ok none
    | .base => .ok (some (Scanner.ofRange layer.range mode))
    | .restricted =>
      (scannerOf mode below).map fun found => found.map fun s => s.setRange layer.range
    | .sampled | .filtered | .transformed | .aggregated =>
      match scannerOf mode below, layer.setting with
      | .ok (some s), some setting => (s.install setting).map some
      | found, _ => found

/-- What a view compiles to, in a mode. -/
def scanner? (v : View) (mode : ScanMode) : Except MapError (Option Scanner) :=
  (scannerOf mode v.layers).mapError MapError.ofStoreError

/-! ### Scans -/

/-- Opens a scan in a mode, of the keys of a range if one is given. -/
def openStream (v : View) (store : Store) (range : Option KeyRange) (mode : ScanMode) :
    Except MapError Stream :=
  (v.scanner? mode).map fun found =>
    match found with
    | none => .nothing
    | some scanner =>
      match range with
      | none => store.openScan scanner
      | some range =>
        match scanner.range.intersect range with
        | some clipped => store.openScan (scanner.setRange clipped)
        | none => .nothing

/-- What a step of a scan returns, in the terms of a view. -/
def ofItem (item : ScanItem) : Except MapError Entry := item.mapError MapError.ofStoreError

/-- All that a scan returns. -/
def scan (v : View) (store : Store) (range : Option KeyRange) (mode : ScanMode) :
    Except MapError (List (Except MapError Entry)) :=
  (v.openStream store range mode).map fun s => (s.drain store).map ofItem

/-- The first thing that a scan returns, or the fault of that. -/
def firstEntry (v : View) (store : Store) (range : Option KeyRange) (mode : ScanMode) :
    Except MapError (Option Entry) :=
  match v.openStream store range mode with
  | .error e => .error e
  | .ok s =>
    match (s.next store).1 with
    | none => .ok none
    | some item => (ofItem item).map some

/-! ### Decoding -/

/-- An entry with its key and value decoded. -/
structure DecodedEntry where
  key : Value
  value : Value
  timestamp : Nat

/-- Decodes the bytes of a key. -/
def decodeKey (v : View) (bytes : Bytes) : Except MapError Value :=
  (v.schema.keyCodec.decode bytes).mapError .decode

/-- Decodes the bytes of a value that the view shows. -/
def decodeValue (v : View) (bytes : Bytes) : Except MapError Value := v.top.format.decode bytes

/-- Decodes an entry, its key first. -/
def decodeEntry (v : View) (e : Entry) : Except MapError DecodedEntry := do
  let key ← v.decodeKey e.key
  let value ← v.decodeValue e.value
  return ⟨key, value, e.timestamp⟩

/-- Decodes what a step of a scan returns. -/
def decodeItem (v : View) (item : Except MapError Entry) : Except MapError DecodedEntry :=
  item.bind v.decodeEntry

end View

end Strata
