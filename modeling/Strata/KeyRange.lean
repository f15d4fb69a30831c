/-
**Ranges of keys.**

A range is bounded on each side by nothing, by a key of its own, or by a key just outside it.  The
intersection of two ranges takes the tighter bound on each side, and is no range when the bounds
have crossed.

* `Bound`, `KeyRange` — the types, with `KeyRange.full`, `KeyRange.halfOpen`, `KeyRange.exact`;
* `KeyRange.contains`, `KeyRange.isEmpty` — what a range holds, and when its bounds have crossed;
* `KeyRange.intersect` — the keys of both ranges;
* `KeyRange.overlapsSpan` — whether a range meets a span `[low, high)`.
-/

import Strata.Bytes

set_option relaxedAutoImplicit false
set_option autoImplicit false

namespace Strata

/-- One end of a range. -/
inductive Bound where
  | unbounded
  | inclusive (key : Bytes)
  | exclusive (key : Bytes)
  deriving DecidableEq, Repr

/-- The keys between two bounds. -/
structure KeyRange where
  lower : Bound
  upper : Bound
  deriving DecidableEq, Repr

/-- The greater of two keys. -/
def Bytes.greater (a b : Bytes) : Bytes := if a < b then b else a

/-- The lesser of two keys. -/
def Bytes.lesser (a b : Bytes) : Bytes := if b < a then b else a

namespace Bound

/-- The key lies above this lower bound. -/
def admitsAbove : Bound → Bytes → Bool
  | unbounded, _ => true
  | inclusive bound, key => decide (¬ key < bound)
  | exclusive bound, key => decide (bound < key)

/-- The key lies below this upper bound. -/
def admitsBelow : Bound → Bytes → Bool
  | unbounded, _ => true
  | inclusive bound, key => decide (¬ bound < key)
  | exclusive bound, key => decide (key < bound)

/-- The tighter of two lower bounds. -/
def tighterLower : Bound → Bound → Bound
  | unbounded, b => b
  | a, unbounded => a
  | inclusive a, inclusive b => inclusive (Bytes.greater a b)
  | exclusive a, exclusive b => exclusive (Bytes.greater a b)
  | inclusive a, exclusive b => if b < a then inclusive a else exclusive b
  | exclusive a, inclusive b => if a < b then inclusive b else exclusive a

/-- The tighter of two upper bounds. -/
def tighterUpper : Bound → Bound → Bound
  | unbounded, b => b
  | a, unbounded => a
  | inclusive a, inclusive b => inclusive (Bytes.lesser a b)
  | exclusive a, exclusive b => exclusive (Bytes.lesser a b)
  | inclusive a, exclusive b => if a < b then inclusive a else exclusive b
  | exclusive a, inclusive b => if b < a then inclusive b else exclusive a

end Bound

namespace KeyRange

/-- All keys. -/
def full : KeyRange := ⟨.unbounded, .unbounded⟩

instance : Inhabited KeyRange := ⟨full⟩

/-- The keys from `low` on and before `high`, where `none` sets no bound. -/
def halfOpen (low high : Option Bytes) : KeyRange :=
  ⟨low.elim .unbounded .inclusive, high.elim .unbounded .exclusive⟩

/-- One key. -/
def exact (key : Bytes) : KeyRange := ⟨.inclusive key, .inclusive key⟩

/-- The bounds have crossed, or met at a key that one of them excludes. -/
def isEmpty (r : KeyRange) : Bool :=
  match r.lower, r.upper with
  | .inclusive low, .inclusive high => decide (high < low)
  | .inclusive low, .exclusive high => decide (¬ low < high)
  | .exclusive low, .inclusive high => decide (¬ low < high)
  | .exclusive low, .exclusive high => decide (¬ low < high)
  | _, _ => false

/-- The key lies within both bounds. -/
def contains (r : KeyRange) (key : Bytes) : Bool :=
  r.lower.admitsAbove key && r.upper.admitsBelow key

/-- The range of the keys of both ranges, unless its bounds have crossed. -/
def intersect (a b : KeyRange) : Option KeyRange :=
  let clipped : KeyRange :=
    ⟨a.lower.tighterLower b.lower, a.upper.tighterUpper b.upper⟩
  if clipped.isEmpty then none else some clipped

/-- The range meets the span `[low, high)`. -/
def overlapsSpan (r : KeyRange) (low high : Option Bytes) : Bool :=
  (r.intersect (halfOpen low high)).isSome

@[simp] theorem contains_full (key : Bytes) : full.contains key = true := rfl

@[simp] theorem isEmpty_full : full.isEmpty = false := rfl

@[simp] theorem halfOpen_none : halfOpen none none = full := rfl

/-- A range cut with the range of all keys is itself, unless its bounds have crossed. -/
theorem intersect_full (r : KeyRange) : r.intersect full = if r.isEmpty then none else some r := by
  obtain ⟨lower, upper⟩ := r
  cases lower <;> cases upper <;> rfl

end KeyRange

end Strata
