/-
**Partitions.**

A store is cut at fixed keys into partitions.  Each holds the keys of a span that contains its lower
end and not its upper end, sorted, each with its versions, and knows by name the operators that it
can run.

* `Rows` — sorted keys with their versions, with `Rows.update`, `Rows.erase` and `Rows.entries`;
* `Partition` — a span, its rows and its operators;
* `spans` — the spans between split points.
-/

import Strata.KeyRange
import Strata.Store.VersionChain

set_option relaxedAutoImplicit false
set_option autoImplicit false

namespace Strata

/-! ### Rows -/

/-- Keys with their versions, in ascending order of the keys. -/
abbrev Rows := List (Bytes × VersionChain)

namespace Rows

/-- Changes the versions of a key, which has none so far if it is not there. -/
def update (key : Bytes) (change : Option VersionChain → VersionChain) : Rows → Rows
  | [] => [(key, change none)]
  | row :: rows =>
    if row.1 < key then row :: update key change rows
    else if row.1 = key then (key, change (some row.2)) :: rows
    else (key, change none) :: row :: rows

/-- Removes a key with all its versions. -/
def erase (key : Bytes) : Rows → Rows
  | [] => []
  | row :: rows => if row.1 = key then rows else row :: erase key rows

/-- Cuts the versions of every key. -/
def retain (retention : Option Nat) (rows : Rows) : Rows :=
  rows.map fun row => (row.1, row.2.retain retention)

/-- The entries of the keys of a range, in a mode. -/
def entries (rows : Rows) (range : KeyRange) (mode : ScanMode) : List Entry :=
  (rows.filter fun row => range.contains row.1).flatMap fun row => row.2.entries row.1 mode

@[simp] theorem entries_nil (range : KeyRange) (mode : ScanMode) : entries [] range mode = [] := rfl

theorem entries_append (a b : Rows) (range : KeyRange) (mode : ScanMode) :
    entries (a ++ b) range mode = entries a range mode ++ entries b range mode := by
  simp [entries]

end Rows

/-! ### Partitions -/

/-- The keys of one span, and the operators that run on them. -/
structure Partition where
  low : Option Bytes
  high : Option Bytes
  rows : Rows
  operators : List String
  deriving Repr

namespace Partition

/-- The key lies before the end of the span. -/
def endsAfter (p : Partition) (key : Bytes) : Bool := p.high.all fun high => decide (key < high)

/-- The partition can run the operator. -/
def runs (p : Partition) (id : String) : Bool := p.operators.contains id

/-- The partition without an operator. -/
def withoutOperator (p : Partition) (id : String) : Partition :=
  { p with operators := p.operators.filter fun known => known != id }

/-- The partition with an operator. -/
def withOperator (p : Partition) (id : String) : Partition :=
  if p.runs id then p else { p with operators := id :: p.operators }

end Partition

/-- The keys sorted, each once. -/
def sortKeys (keys : List Bytes) : List Bytes :=
  keys.foldr insert []
where
  /-- Puts a key where it belongs, unless it is there. -/
  insert (key : Bytes) : List Bytes → List Bytes
    | [] => [key]
    | k :: rest =>
      if key < k then key :: k :: rest else if key = k then k :: rest else k :: insert key rest

/-- The spans that sorted split points leave, from a lower end on. -/
def spans (low : Option Bytes) : List Bytes → List (Option Bytes × Option Bytes)
  | [] => [(low, none)]
  | split :: splits => (low, some split) :: spans (some split) splits

@[simp] theorem spans_nil (low : Option Bytes) : spans low [] = [(low, none)] := rfl

end Strata
