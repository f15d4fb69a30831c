/-
**The algebra of key ranges.**

A lower bound cuts off the keys before its own, and an exclusive one cuts off its own key too.  So
lower bounds are in order: by their keys, and at one key the exclusive bound comes second; the
tighter of two is the greater.  Upper bounds are in order in the same way, the exclusive one first
and no bound at all last; the tighter of two is the lesser.  So taking the tighter of two bounds is
commutative, associative and idempotent.  Whole ranges inherit these laws, because bounds that have
crossed stay crossed when they are drawn tighter.

* `Bound.lowerRank`, `Bound.upperRank` — the orders of bounds;
* `Bound.lowerRank_tighterLower`, `Bound.upperRank_tighterUpper` — **the tighter bound is an
  extreme**;
* `KeyRange.clip` — the tighter bounds of two ranges, whether they have crossed or not;
* `KeyRange.intersect_comm`, `KeyRange.intersect_assoc`, `KeyRange.intersect_self` — the laws;
* `KeyRange.intersect_exact` — ranges cut with one key;
* `KeyRange.intersect_laws` — **what an intersection holds, with the laws**.
-/

import Mathlib.Data.Prod.Lex
import Mathlib.Order.WithBot
import Strata.Proofs.KeyRange

set_option relaxedAutoImplicit false
set_option autoImplicit false

namespace Strata

/-! ### The order of bounds -/

namespace Bound

/-- A place at a key: `true` comes behind `false`. -/
abbrev Place := Bytes ×ₗ Bool

theorem place_le_iff {a b : Bytes} {f g : Bool} :
    (toLex (a, f) : Place) ≤ toLex (b, g) ↔ a < b ∨ a = b ∧ (f = true → g = true) := by
  rw [Prod.Lex.toLex_le_toLex, Bool.le_iff_imp]

/-- Where a lower bound starts to admit keys: an exclusive bound starts behind its key. -/
def lowerRank : Bound → WithBot Place
  | unbounded => ⊥
  | inclusive key => WithBot.some (toLex (key, false))
  | exclusive key => WithBot.some (toLex (key, true))

/-- Where an upper bound stops to admit keys: an exclusive bound stops before its key. -/
def upperRank : Bound → WithTop Place
  | unbounded => ⊤
  | inclusive key => WithTop.some (toLex (key, true))
  | exclusive key => WithTop.some (toLex (key, false))

theorem lowerRank_injective : Function.Injective lowerRank := by
  intro a b h
  cases a <;> cases b <;> simp_all [lowerRank]

theorem upperRank_injective : Function.Injective upperRank := by
  intro a b h
  cases a <;> cases b <;> simp_all [upperRank]

/-- **The tighter of two lower bounds is the greater.** -/
theorem lowerRank_tighterLower (a b : Bound) :
    (a.tighterLower b).lowerRank = max a.lowerRank b.lowerRank := by
  cases a <;> cases b <;> simp only [tighterLower, lowerRank, max_bot_left, max_bot_right]
  -- keys are compared, and at one key the kinds of the two bounds
  all_goals
    rw [max_def]
    simp only [Bytes.greater, WithBot.coe_le_coe, place_le_iff]
    split_ifs <;> grind

/-- **The tighter of two upper bounds is the lesser.** -/
theorem upperRank_tighterUpper (a b : Bound) :
    (a.tighterUpper b).upperRank = min a.upperRank b.upperRank := by
  cases a <;> cases b <;> simp only [tighterUpper, upperRank, min_top_left, min_top_right]
  all_goals
    rw [min_def]
    simp only [Bytes.lesser, WithTop.coe_le_coe, place_le_iff]
    split_ifs <;> grind

theorem tighterLower_comm (a b : Bound) : a.tighterLower b = b.tighterLower a := by
  apply lowerRank_injective
  rw [lowerRank_tighterLower, lowerRank_tighterLower, max_comm]

theorem tighterUpper_comm (a b : Bound) : a.tighterUpper b = b.tighterUpper a := by
  apply upperRank_injective
  rw [upperRank_tighterUpper, upperRank_tighterUpper, min_comm]

theorem tighterLower_assoc (a b c : Bound) :
    (a.tighterLower b).tighterLower c = a.tighterLower (b.tighterLower c) := by
  apply lowerRank_injective
  simp only [lowerRank_tighterLower, max_assoc]

theorem tighterUpper_assoc (a b c : Bound) :
    (a.tighterUpper b).tighterUpper c = a.tighterUpper (b.tighterUpper c) := by
  apply upperRank_injective
  simp only [upperRank_tighterUpper, min_assoc]

theorem tighterLower_self (a : Bound) : a.tighterLower a = a := by
  apply lowerRank_injective
  rw [lowerRank_tighterLower, max_self]

theorem tighterUpper_self (a : Bound) : a.tighterUpper a = a := by
  apply upperRank_injective
  rw [upperRank_tighterUpper, min_self]

theorem tighterLower_inclusive (a : Bound) (key : Bytes) :
    a.tighterLower (inclusive key) = if a.admitsAbove key then inclusive key else a := by
  cases a with
  | unbounded => rfl
  | inclusive bound =>
      simp only [tighterLower, admitsAbove, Bytes.greater, decide_eq_true_eq]
      split
      · next hlt => rw [if_pos hlt.asymm]
      · next hle =>
        split
        · next hge => rw [le_antisymm (not_lt.1 hle) (not_lt.1 hge)]
        · rfl
  | exclusive bound => simp only [tighterLower, admitsAbove, decide_eq_true_eq]

theorem tighterUpper_inclusive (a : Bound) (key : Bytes) :
    a.tighterUpper (inclusive key) = if a.admitsBelow key then inclusive key else a := by
  cases a with
  | unbounded => rfl
  | inclusive bound =>
      simp only [tighterUpper, admitsBelow, Bytes.lesser, decide_eq_true_eq]
      split
      · next hlt => rw [if_pos hlt.asymm]
      · next hle =>
        split
        · next hge => rw [le_antisymm (not_lt.1 hge) (not_lt.1 hle)]
        · rfl
  | exclusive bound => simp only [tighterUpper, admitsBelow, decide_eq_true_eq]

end Bound

/-! ### Whole ranges -/

namespace KeyRange

/-- The tighter bounds of two ranges, whether they have crossed or not. -/
def clip (a b : KeyRange) : KeyRange :=
  ⟨a.lower.tighterLower b.lower, a.upper.tighterUpper b.upper⟩

variable (a b c : KeyRange)

theorem intersect_eq_clip :
    a.intersect b = if (a.clip b).isEmpty then none else some (a.clip b) := rfl

theorem clip_comm : a.clip b = b.clip a := by
  rw [clip, clip, Bound.tighterLower_comm, Bound.tighterUpper_comm]

theorem clip_assoc : (a.clip b).clip c = a.clip (b.clip c) := by
  simp only [clip, Bound.tighterLower_assoc, Bound.tighterUpper_assoc]

theorem clip_self : a.clip a = a := by
  rw [clip, Bound.tighterLower_self, Bound.tighterUpper_self]

/-- Bounds that have crossed stay crossed when they are drawn tighter. -/
theorem isEmpty_clip_of_left {a : KeyRange} (h : a.isEmpty = true) : (a.clip b).isEmpty = true := by
  rw [clip, isEmpty_tighterLower, isEmpty_tighterUpper]
  rw [Bool.or_eq_true, Bool.or_eq_true]
  exact Or.inl (Or.inl h)

/-- An intersection is cut once more. -/
theorem bind_intersect : ((a.intersect b).bind fun r => r.intersect c) =
    if ((a.clip b).clip c).isEmpty then none else some ((a.clip b).clip c) := by
  rw [intersect_eq_clip]
  split
  · next h => rw [Option.bind_none, if_pos (isEmpty_clip_of_left c h)]
  · rw [Option.bind_some, intersect_eq_clip]

/-- **Intersection is commutative.** -/
theorem intersect_comm : a.intersect b = b.intersect a := by
  rw [intersect_eq_clip, intersect_eq_clip, clip_comm]

/-- **Intersection is associative**, where no range at all stays none. -/
theorem intersect_assoc :
    ((a.intersect b).bind fun r => r.intersect c) = (b.intersect c).bind a.intersect := by
  rw [bind_intersect, clip_assoc, clip_comm a, ← bind_intersect]
  exact congrArg _ (funext fun r => intersect_comm r a)

/-- **A range that is not empty is its own intersection.** -/
theorem intersect_self : a.intersect a = if a.isEmpty then none else some a := by
  rw [intersect_eq_clip, clip_self]

/-- **A range cut with one key** is the range of that key if it holds the key, and otherwise
none. -/
theorem intersect_exact (key : Bytes) :
    a.intersect (exact key) = if a.contains key then some (exact key) else none := by
  rw [intersect_eq_clip, clip, exact, Bound.tighterLower_inclusive, Bound.tighterUpper_inclusive,
    contains]
  obtain ⟨lower, upper⟩ := a
  -- where a bound leaves the key out, it has crossed the key or the other bound
  cases hlower : lower.admitsAbove key <;> cases hupper : upper.admitsBelow key <;>
  cases lower <;> cases upper <;>
    simp_all [isEmpty, Bound.admitsAbove, Bound.admitsBelow] <;> order

/-- **What an intersection holds, and the laws of intersections.**  An intersection of two ranges
holds exactly the keys of both, and its bounds have not crossed; where there is none, no key lies in
both ranges.  Intersection is commutative and, with none for none, associative, and a range is its
own intersection unless its bounds have crossed.  A range meets every span in which one of its keys
lies. -/
theorem intersect_laws (a b c : KeyRange) :
    (∀ r, a.intersect b = some r →
      (∀ key, r.contains key = true ↔ a.contains key = true ∧ b.contains key = true) ∧
        r.isEmpty = false) ∧
    (a.intersect b = none → ∀ key, ¬ (a.contains key = true ∧ b.contains key = true)) ∧
    a.intersect b = b.intersect a ∧
    ((a.intersect b).bind fun r => r.intersect c) = (b.intersect c).bind (fun r => a.intersect r) ∧
    (a.intersect a = if a.isEmpty then none else some a) ∧
    ∀ (low high : Option Bytes) (key : Bytes), a.contains key = true →
      (∀ l ∈ low, l ≤ key) → (∀ h ∈ high, key < h) → a.overlapsSpan low high = true := by
  refine ⟨?_, ?_, intersect_comm a b, intersect_assoc a b c, intersect_self a, ?_⟩
  · intro r h
    refine ⟨fun key => ?_, isEmpty_of_intersect h⟩
    rw [contains_of_intersect h, Bool.and_eq_true]
  · intro h key
    have hkey := not_contains_of_intersect_eq_none h key
    rwa [Bool.eq_false_iff, ne_eq, Bool.and_eq_true] at hkey
  · intro low high key hkey hlow hhigh
    exact overlapsSpan_of_contains hkey ((contains_halfOpen low high key).2 ⟨hlow, hhigh⟩)

/-- At one key the exclusive bound is the tighter, whichever comes first. -/
example :
    let a : KeyRange := ⟨.inclusive [1], .inclusive [2]⟩
    let b : KeyRange := ⟨.exclusive [1], .inclusive [2, 0]⟩
    a.intersect b = some ⟨.exclusive [1], .inclusive [2]⟩ ∧ b.intersect a = a.intersect b := by
  decide

end KeyRange

end Strata
