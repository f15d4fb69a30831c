/-
**Reading a view.**

Reads of one key scan the range of that key and take the first entry; reads of all keys decode what
a scan returns, entry by entry, so that one entry that does not decode leaves the others readable.

* `View.get`, `View.getTimestamp`, `View.getAll`, `View.containsKey` — one key;
* `View.waitFor` — a key that may come yet;
* `View.firstKey`, `View.lastKey`, `View.isEmpty` — the ends;
* `View.entries`, `View.multiEntries`, `View.keys`, `View.values`, `View.localCopy` — all keys.
-/

import Strata.View.Derive
import Strata.View.Scan

set_option relaxedAutoImplicit false
set_option autoImplicit false

namespace Strata

namespace View

/-! ### One key -/

/-- The first entry of a key. -/
def lookup (v : View) (store : Store) (key : Value) : Except MapError (Option Entry) := do
  let bytes ← v.encodeKey key
  v.firstEntry store (some (KeyRange.exact bytes)) v.top.mode

/-- The value of a key, the newest if it has several. -/
def get (v : View) (store : Store) (key : Value) : Except MapError (Option Value) := do
  match ← v.lookup store key with
  | none => return none
  | some e => return some (← v.decodeValue e.value)

/-- The timestamp of a key, that of the newest value if it has several. -/
def getTimestamp (v : View) (store : Store) (key : Value) : Except MapError (Option Nat) := do
  return (← v.lookup store key).map (·.timestamp)

/-- All values of a key, the newest first. -/
def getAll (v : View) (store : Store) (key : Value) : Except MapError (List Value) := do
  let bytes ← v.encodeKey key
  let items ← v.scan store (some (KeyRange.exact bytes)) .allVersions
  items.mapM fun item => item.bind fun e => v.decodeValue e.value

/-- The key is there. -/
def containsKey (v : View) (store : Store) (key : Value) : Except MapError Bool := do
  return (← v.lookup store key).isSome

/-! ### Waiting for a key -/

/-- Looks for a key, pauses and looks again, until the key is there or the time is over.  Every
pause takes the increment, but the last one no longer than is left; without an increment there is
no pause.  At each look the store is the one of that time. -/
def waitFrom (v : View) (stores : Nat → Store) (key : Value) (max increment waited : Nat) :
    Except MapError (Option Value) :=
  match v.get (stores waited) key with
  | .error e => .error e
  | .ok (some value) => .ok (some value)
  | .ok none =>
    if max ≤ waited ∨ increment = 0 then .ok none
    else v.waitFrom stores key max increment (waited + min increment (max - waited))
termination_by max - waited
decreasing_by omega

/-- The value of a key for which one waits, at most for some time, all times in nanoseconds.  The
pauses are those of the settings if no increment is given.  Others may change the store meanwhile:
what they have made of it by some time is given, or nobody changes it. -/
def waitFor (v : View) (store : Store) (key : Value) (max : Nat := 0)
    (increment : Option Nat := none) (others : Nat → Store → Store := fun _ store => store) :
    Except MapError (Option Value) :=
  v.waitFrom (fun waited => others waited store) key max
    (increment.getD v.schema.settings.pause) 0

/-! ### The ends -/

/-- The least key. -/
def firstKey (v : View) (store : Store) : Except MapError (Option Value) := do
  match ← v.firstEntry store none v.top.mode with
  | none => return none
  | some e => return some (← v.decodeKey e.key)

/-- The greatest key, if the scan comes to its end. -/
def lastKey (v : View) (store : Store) : Except MapError (Option Value) := do
  let items ← v.scan store none v.top.mode
  let entries ← items.mapM id
  match entries.getLast? with
  | none => return none
  | some e => return some (← v.decodeKey e.key)

/-- There is no entry. -/
def isEmpty (v : View) (store : Store) : Except MapError Bool := do
  return (← v.firstEntry store none v.top.mode).isNone

/-! ### All keys -/

/-- The entries of the view. -/
def entries (v : View) (store : Store) : Except MapError (List (Except MapError DecodedEntry)) :=
  (v.scan store none v.top.mode).map fun items => items.map v.decodeItem

/-- The entries of all versions. -/
def multiEntries (v : View) (store : Store) :
    Except MapError (List (Except MapError DecodedEntry)) :=
  (v.scan store none .allVersions).map fun items => items.map v.decodeItem

/-- The keys. -/
def keys (v : View) (store : Store) : Except MapError (List (Except MapError Value)) :=
  (v.entries store).map fun items => items.map fun item => item.map (·.key)

/-- The values. -/
def values (v : View) (store : Store) : Except MapError (List (Except MapError Value)) :=
  (v.entries store).map fun items => items.map fun item => item.map (·.value)

/-- All keys with their values, if all of them decode. -/
def localCopy (v : View) (store : Store) : Except MapError (List (Value × Value)) := do
  let items ← v.entries store
  items.mapM fun item => item.map fun e => (e.key, e.value)

/-- Looks for a value up to the first that is equal or does not decode. -/
def findValue (wanted : Value) : List (Except MapError Value) → Except MapError Bool
  | [] => .ok false
  | .error e :: _ => .error e
  | .ok value :: rest => if value == wanted then .ok true else findValue wanted rest

/-- The value is that of some key. -/
def containsValue (v : View) (store : Store) (wanted : Value) : Except MapError Bool :=
  (v.values store).bind (findValue wanted)

end View

end Strata
