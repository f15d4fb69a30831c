/-
**The text of a view.**

A view can be described in one line, and what it shows can be written out line by line, one line for
every entry.  Writing stops at the first entry that does not decode, or when there is no more room.

* `View.describe` — the view in one line;
* `dumpLine`, `capped` — the line of an entry, and which entries get one;
* `View.dump`, `View.dumpMulti` — what is written.
-/

import Strata.Text.Quoted
import Strata.Value.Text
import Strata.View.Scan

set_option relaxedAutoImplicit false
set_option autoImplicit false

namespace Strata

/-! ### One line for a view -/

/-- Bytes as a list of numbers. -/
def Bytes.listText (bytes : Bytes) : String :=
  "[" ++ String.intercalate ", " (bytes.map fun b => Nat.repr b.toNat) ++ "]"

/-- One end of a range, in words. -/
def Bound.describe : Bound → String
  | unbounded => "Unbounded"
  | inclusive key => "Included(" ++ key.listText ++ ")"
  | exclusive key => "Excluded(" ++ key.listText ++ ")"

/-- A range, in words. -/
def KeyRange.describe (r : KeyRange) : String :=
  "KeyRange \x7b start: " ++ r.lower.describe ++ ", end: " ++ r.upper.describe ++ " \x7d"

/-- A scan mode, in words. -/
def ScanMode.title : ScanMode → String
  | latest => "Latest"
  | allVersions => "AllVersions"

/-- Something that may be missing, in words. -/
def describeOption (text : Option String) : String :=
  match text with
  | none => "None"
  | some text => "Some(" ++ text ++ ")"

/-- The names of the operators of a registry, in one line. -/
def Registry.describe (r : Registry) : String :=
  "OperatorRegistry \x7b ids: [" ++ String.intercalate ", " (r.ids.map Text.quoted) ++ "] \x7d"

namespace View

/-- The view in one line: how it was made and what it shows. -/
def describe (v : View) : String :=
  "View \x7b kind: " ++ v.kind.name ++
    ", operator: " ++ describeOption (v.top.setting.map fun s => Text.quoted s.id) ++
    ", priority: " ++ describeOption (v.priority?.map Nat.repr) ++
    ", range: " ++ v.top.range.describe ++
    ", mode: " ++ v.top.mode.title ++
    ", value_type: " ++ v.top.valueType.title ++ " \x7d"

/-! ### One line for every entry -/

/-- The line of an entry. -/
def dumpLine (e : DecodedEntry) : String :=
  "k = " ++ e.key.render ++ " : v = " ++ e.value.render ++ "\n"

/-- The entries that get a line: of consecutive ones whose keys are equal, the first `max` if there
is a limit.  What is known of those before is their key and how many of them got one. -/
def capped (max : Option Nat) :
    Option Value → Nat → List (Except MapError DecodedEntry) → List (Except MapError DecodedEntry)
  | _, _, [] => []
  | key, written, .error e :: rest => .error e :: capped max key written rest
  | key, written, .ok e :: rest =>
    let sameKey := key.any fun k => k == e.key
    let key := if sameKey then key else some e.key
    let written := if sameKey then written else 0
    if max.all fun m => decide (written < m) then .ok e :: capped max key (written + 1) rest
    else capped max key written rest

/-- Writes the lines of entries behind a text, into room for so many bytes in all if it is
limited. -/
def pour (room : Option Nat) : String → List (Except MapError DecodedEntry) → Except MapError String
  | text, [] => .ok text
  | _, .error e :: _ => .error e
  | text, .ok e :: rest =>
    let text := text ++ dumpLine e
    if room.all fun limit => decide (text.utf8ByteSize ≤ limit) then pour room text rest
    else .error (.io "sink full")

/-- What is written of all versions of the entries, at most `max` of each key. -/
def dumpMulti (v : View) (store : Store) (max room : Option Nat) : Except MapError String := do
  let items ← v.scan store none .allVersions
  pour room "" (capped max none 0 (items.map v.decodeItem))

/-- What is written of the entries; where a key may have several values, of all of them. -/
def dump (v : View) (store : Store) (room : Option Nat) : Except MapError String := do
  if v.schema.settings.isMultiValued then v.dumpMulti store none room
  else
    let items ← v.scan store none v.top.mode
    pour room "" (items.map v.decodeItem)

end View

end Strata
