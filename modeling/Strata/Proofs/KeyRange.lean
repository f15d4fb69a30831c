/-
**What a range of keys holds.**

A range is read here as the set of keys that it contains.  Each end is looked at apart: a key lies
above the tighter of two lower bounds exactly when it lies above both, and likewise below.  From
the two ends follow the laws of whole ranges that a scan rests on: an intersection holds the common
keys, ranges that are cut to nothing share none, and a range meets every span in which one of its
keys lies.

* `KeyRange.contains_of_intersect` — **the keys of an intersection**;
* `KeyRange.not_contains_of_intersect_eq_none` — no intersection, no common key;
* `KeyRange.overlapsSpan_of_contains` — a span that holds a key of the range is met by it;
* `KeyRange.overlapsSpan_of_intersect` — a narrower range meets no other spans;
* `KeyRange.Searchable` — the bounds with which sorted rows may be searched.
-/

import Strata.KeyRange
import Strata.Proofs.Bytes

set_option relaxedAutoImplicit false
set_option autoImplicit false

namespace Strata

/-! ### One end of a range -/

namespace Bytes

theorem lt_greater_iff {a b key : Bytes} : key < greater a b ↔ key < a ∨ key < b := by
  unfold greater
  split <;> grind

theorem greater_lt_iff {a b key : Bytes} : greater a b < key ↔ a < key ∧ b < key := by
  unfold greater
  split <;> grind

theorem lesser_lt_iff {a b key : Bytes} : lesser a b < key ↔ a < key ∨ b < key := by
  unfold lesser
  split <;> grind

theorem lt_lesser_iff {a b key : Bytes} : key < lesser a b ↔ key < a ∧ key < b := by
  unfold lesser
  split <;> grind

end Bytes

namespace Bound

/-- A key lies above the tighter of two lower bounds exactly when it lies above both. -/
theorem admitsAbove_tighterLower (a b : Bound) (key : Bytes) :
    (a.tighterLower b).admitsAbove key = (a.admitsAbove key && b.admitsAbove key) := by
  rw [Bool.eq_iff_iff]
  cases a <;> cases b <;>
    simp only [tighterLower, admitsAbove, Bool.and_eq_true, decide_eq_true_eq, true_and, and_true,
      Bytes.lt_greater_iff, Bytes.greater_lt_iff, not_or]
  all_goals split <;> simp only [decide_eq_true_eq] <;> grind

/-- A key lies below the tighter of two upper bounds exactly when it lies below both. -/
theorem admitsBelow_tighterUpper (a b : Bound) (key : Bytes) :
    (a.tighterUpper b).admitsBelow key = (a.admitsBelow key && b.admitsBelow key) := by
  rw [Bool.eq_iff_iff]
  cases a <;> cases b <;>
    simp only [tighterUpper, admitsBelow, Bool.and_eq_true, decide_eq_true_eq, true_and, and_true,
      Bytes.lesser_lt_iff, Bytes.lt_lesser_iff, not_or]
  all_goals split <;> simp only [decide_eq_true_eq] <;> grind

/-- The key of a bound. -/
def key? : Bound → Option Bytes
  | unbounded => none
  | inclusive key | exclusive key => some key

end Bound

/-! ### Whole ranges -/

namespace KeyRange

theorem contains_iff (r : KeyRange) (key : Bytes) :
    r.contains key = true ↔ r.lower.admitsAbove key = true ∧ r.upper.admitsBelow key = true := by
  rw [contains, Bool.and_eq_true]

@[simp] theorem contains_exact (bound key : Bytes) :
    (exact bound).contains key = true ↔ key = bound := by
  simp only [exact, contains, Bound.admitsAbove, Bound.admitsBelow, Bool.and_eq_true,
    decide_eq_true_eq]
  constructor
  · rintro ⟨h₁, h₂⟩
    order
  · rintro rfl
    exact ⟨lt_irrefl _, lt_irrefl _⟩

theorem contains_halfOpen (low high : Option Bytes) (key : Bytes) :
    (halfOpen low high).contains key = true ↔ (∀ l ∈ low, l ≤ key) ∧ ∀ h ∈ high, key < h := by
  cases low <;> cases high <;>
    simp [halfOpen, contains, Bound.admitsAbove, Bound.admitsBelow]

/-- A range whose bounds have crossed holds no key. -/
theorem contains_of_isEmpty {r : KeyRange} (h : r.isEmpty = true) (key : Bytes) :
    r.contains key = false := by
  obtain ⟨lower, upper⟩ := r
  rw [Bool.eq_false_iff, ne_eq, contains_iff]
  cases lower <;> cases upper <;>
    simp only [isEmpty, Bound.admitsAbove, Bound.admitsBelow, decide_eq_true_eq,
      Bool.false_eq_true] at h ⊢ <;> grind

/-- **The keys of an intersection** are those of both ranges. -/
theorem contains_of_intersect {a b r : KeyRange} (h : a.intersect b = some r) (key : Bytes) :
    r.contains key = (a.contains key && b.contains key) := by
  simp only [intersect] at h
  split at h
  · exact absurd h (by simp)
  · rw [← Option.some_inj.1 h]
    simp only [contains, Bound.admitsAbove_tighterLower, Bound.admitsBelow_tighterUpper]
    ac_rfl

/-- Ranges that have no intersection have no key in common. -/
theorem not_contains_of_intersect_eq_none {a b : KeyRange} (h : a.intersect b = none)
    (key : Bytes) : (a.contains key && b.contains key) = false := by
  simp only [intersect] at h
  split at h
  · next hempty =>
    have hnone := contains_of_isEmpty hempty key
    simp only [contains, Bound.admitsAbove_tighterLower, Bound.admitsBelow_tighterUpper] at hnone ⊢
    rw [← hnone]
    ac_rfl
  · exact absurd h (by simp)

/-- An intersection is never a range whose bounds have crossed. -/
theorem isEmpty_of_intersect {a b r : KeyRange} (h : a.intersect b = some r) :
    r.isEmpty = false := by
  simp only [intersect] at h
  split at h
  · exact absurd h (by simp)
  · next hempty =>
    rw [← Option.some_inj.1 h]
    simpa using hempty

/-- A range meets every span in which one of its keys lies. -/
theorem overlapsSpan_of_contains {r : KeyRange} {low high : Option Bytes} {key : Bytes}
    (hr : r.contains key = true) (hspan : (halfOpen low high).contains key = true) :
    r.overlapsSpan low high = true := by
  rw [overlapsSpan, Option.isSome_iff_ne_none]
  intro hnone
  have := not_contains_of_intersect_eq_none hnone key
  simp [hr, hspan] at this

/-- Bounds have crossed exactly when one of two lower bounds has crossed the upper one. -/
theorem isEmpty_tighterLower (a b upper : Bound) :
    isEmpty ⟨a.tighterLower b, upper⟩ = (isEmpty ⟨a, upper⟩ || isEmpty ⟨b, upper⟩) := by
  rw [Bool.eq_iff_iff]
  cases a <;> cases b <;> cases upper <;>
    simp only [Bound.tighterLower, isEmpty, Bool.or_eq_true, decide_eq_true_eq, Bool.false_eq_true,
      false_or, or_false, Bytes.lt_greater_iff, Bytes.greater_lt_iff, not_and_or]
  all_goals split_ifs <;> grind

theorem isEmpty_tighterUpper (lower a b : Bound) :
    isEmpty ⟨lower, a.tighterUpper b⟩ = (isEmpty ⟨lower, a⟩ || isEmpty ⟨lower, b⟩) := by
  rw [Bool.eq_iff_iff]
  cases a <;> cases b <;> cases lower <;>
    simp only [Bound.tighterUpper, isEmpty, Bool.or_eq_true, decide_eq_true_eq, Bool.false_eq_true,
      false_or, or_false, Bytes.lesser_lt_iff, Bytes.lt_lesser_iff, not_and_or]
  all_goals split_ifs <;> grind

theorem isSome_intersect (a b : KeyRange) :
    (a.intersect b).isSome = true ↔
      isEmpty ⟨a.lower.tighterLower b.lower, a.upper.tighterUpper b.upper⟩ = false := by
  simp only [intersect]
  split <;> simp_all

/-- A span that an intersection meets is met by both ranges. -/
theorem overlapsSpan_of_intersect {a b r : KeyRange} {low high : Option Bytes}
    (h : a.intersect b = some r) (hr : r.overlapsSpan low high = true) :
    a.overlapsSpan low high = true := by
  simp only [intersect] at h
  split at h
  · cases h
  · rw [overlapsSpan, isSome_intersect] at hr ⊢
    rw [← Option.some_inj.1 h] at hr
    simp only [isEmpty_tighterLower, isEmpty_tighterUpper, Bool.or_eq_false_iff] at hr ⊢
    tauto

/-! ### Searching sorted rows -/

/-- Sorted rows can be searched between these bounds: the lower one is not above the upper one, and
the two do not both exclude one key. -/
def Searchable (r : KeyRange) : Prop :=
  ∀ low ∈ r.lower.key?, ∀ high ∈ r.upper.key?,
    low ≤ high ∧ ¬ (r.lower = .exclusive low ∧ r.upper = .exclusive low)

/-- Whatever is not empty can be searched. -/
theorem searchable_of_isEmpty {r : KeyRange} (h : r.isEmpty = false) : r.Searchable := by
  obtain ⟨lower, upper⟩ := r
  intro low hlow high hhigh
  cases lower <;> cases upper <;>
    simp only [isEmpty, Bound.key?, Option.mem_def, Option.some.injEq, reduceCtorEq,
      decide_eq_false_iff_not, not_not] at h hlow hhigh <;> grind

end KeyRange

end Strata
