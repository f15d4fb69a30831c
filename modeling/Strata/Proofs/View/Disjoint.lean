/-
**Ranges that hold no key.**

Whether a range holds nothing is told from its bounds alone: it does when they have crossed.  Byte
strings lie densely, but not everywhere.  Nothing comes before the empty string, and nothing comes
between a string and the one that is longer by a zero byte, which follows it at once.  So there are
two kinds of range whose bounds have not crossed and between which there is no key all the same, and
there are no others: between any other two bounds lies one of their keys or the follower of one.

* `Bytes.covBy_iff` — the string that follows at once;
* `KeyRange.IsGap` — the two kinds of range;
* `KeyRange.forall_not_contains_iff` — **the ranges that hold no key**;
* `View.emptiness` — ranges, intersections and restrictions that hold nothing.
-/

import Mathlib.Order.Cover
import Strata.Proofs.KeyRange.Algebra
import Strata.Proofs.View.Derived

set_option relaxedAutoImplicit false
set_option autoImplicit false

namespace Strata

/-! ### The string that follows at once -/

namespace Bytes

variable {a b key : Bytes}

/-- Before the string that is longer by a zero byte there is nothing more than before the string
and the string itself. -/
theorem lt_append_zero_iff : key < a ++ [0] ↔ key ≤ a := by
  rw [← not_lt]
  induction a generalizing key with
  | nil =>
      cases key with
      | nil => simp
      | cons byte key =>
          have hbyte : ¬ byte < 0 := not_lt.2 UInt8.zero_le
          simp [List.cons_lt_cons_iff, hbyte]
  | cons first a ih =>
      cases key with
      | nil => simp
      | cons byte key =>
          rw [List.cons_append, List.cons_lt_cons_iff, List.cons_lt_cons_iff, ih]
          rcases lt_trichotomy byte first with hlt | rfl | hlt
          · simp [hlt, hlt.not_gt, hlt.ne']
          · simp
          · simp [hlt, hlt.not_gt, hlt.ne']

/-- **A string is followed at once by the one that is longer by a zero byte.** -/
theorem covBy_iff : a ⋖ b ↔ b = a ++ [0] := by
  have hfollows : a < a ++ [0] := lt_append_zero_iff.2 le_rfl
  constructor
  · intro h
    -- the follower lies between them unless it is the second
    exact le_antisymm (not_lt.1 fun hlt => h.2 hfollows hlt)
      (not_lt.1 fun hlt => h.1.not_ge (lt_append_zero_iff.1 hlt))
  · rintro rfl
    exact ⟨hfollows, fun key hlow hhigh => hlow.not_ge (lt_append_zero_iff.1 hhigh)⟩

end Bytes

/-! ### Ranges -/

namespace KeyRange

/-- The bounds of the range have not crossed, and yet no key lies between them. -/
inductive IsGap : KeyRange → Prop
  /-- Nothing comes before the empty key. -/
  | start : IsGap ⟨.unbounded, .exclusive []⟩
  /-- Nothing comes between a key and the one that follows it at once. -/
  | between (key : Bytes) : IsGap ⟨.exclusive key, .exclusive (key ++ [0])⟩

variable {r a b : KeyRange}

theorem IsGap.isEmpty (h : r.IsGap) : r.isEmpty = false := by
  cases h with
  | start => rfl
  | between key => simpa [KeyRange.isEmpty] using (Bytes.covBy_iff.2 rfl : key ⋖ key ++ [0]).lt

theorem IsGap.not_contains (h : r.IsGap) (key : Bytes) : r.contains key = false := by
  rw [Bool.eq_false_iff, ne_eq, contains_iff]
  rintro ⟨habove, hbelow⟩
  cases h with
  | start => simp [Bound.admitsBelow] at hbelow
  | between low =>
      exact (Bytes.covBy_iff.2 rfl : low ⋖ low ++ [0]).2 (of_decide_eq_true habove)
        (of_decide_eq_true hbelow)

/-- Between bounds that have not crossed lies a key, apart from the two kinds of gap. -/
theorem exists_contains (hopen : r.isEmpty = false) (hgap : ¬ r.IsGap) :
    ∃ key, r.contains key = true := by
  obtain ⟨lower, upper⟩ := r
  cases lower with
  | unbounded =>
      cases upper with
      | unbounded => exact ⟨[], rfl⟩
      | inclusive high => exact ⟨high, by simp [contains, Bound.admitsAbove, Bound.admitsBelow]⟩
      | exclusive high =>
          -- the least key, unless it is the one that is excluded
          have hhigh : high ≠ [] := by rintro rfl; exact hgap .start
          refine ⟨[], ?_⟩
          obtain ⟨byte, high, rfl⟩ := List.exists_cons_of_ne_nil hhigh
          simp [contains, Bound.admitsAbove, Bound.admitsBelow]
  | inclusive low =>
      refine ⟨low, ?_⟩
      cases upper <;>
        simp_all [contains, isEmpty, Bound.admitsAbove, Bound.admitsBelow]
  | exclusive low =>
      cases upper with
      | unbounded =>
          have hnext : low < low ++ [0] := (Bytes.covBy_iff.2 rfl : low ⋖ low ++ [0]).lt
          exact ⟨low ++ [0], by simpa [contains, Bound.admitsAbove, Bound.admitsBelow] using hnext⟩
      | inclusive high =>
          refine ⟨high, ?_⟩
          simpa [contains, isEmpty, Bound.admitsAbove, Bound.admitsBelow] using hopen
      | exclusive high =>
          have hlt : low < high := by simpa [isEmpty] using hopen
          have hcover : ¬ low ⋖ high := by
            intro hcover
            obtain rfl := Bytes.covBy_iff.1 hcover
            exact hgap (.between low)
          obtain ⟨key, hlow, hhigh⟩ := (not_covBy_iff hlt).1 hcover
          exact ⟨key, by simpa [contains, Bound.admitsAbove, Bound.admitsBelow] using ⟨hlow, hhigh⟩⟩

/-- **The ranges that hold no key** are those whose bounds have crossed and the gaps. -/
theorem forall_not_contains_iff :
    (∀ key, r.contains key = false) ↔ r.isEmpty = true ∨ r.IsGap := by
  constructor
  · intro hnone
    by_contra hno
    obtain ⟨hopen, hgap⟩ := not_or.1 hno
    obtain ⟨key, hkey⟩ := exists_contains (Bool.eq_false_iff.2 hopen) hgap
    exact Bool.false_ne_true ((hnone key).symm.trans hkey)
  · rintro (hempty | hgap) key
    · exact contains_of_isEmpty hempty key
    · exact hgap.not_contains key

/-- The bounds of a range have crossed exactly if it holds no key and is no gap. -/
theorem isEmpty_iff : r.isEmpty = true ↔ (∀ key, r.contains key = false) ∧ ¬ r.IsGap := by
  rw [forall_not_contains_iff]
  constructor
  · intro hempty
    exact ⟨Or.inl hempty, fun hgap => Bool.false_ne_true (hgap.isEmpty.symm.trans hempty)⟩
  · rintro ⟨hempty | hgap, hno⟩
    · exact hempty
    · exact absurd hgap hno

/-- The tighter bounds of two ranges admit the keys of both. -/
theorem contains_clip (a b : KeyRange) (key : Bytes) :
    (a.clip b).contains key = (a.contains key && b.contains key) := by
  simp only [clip, contains, Bound.admitsAbove_tighterLower, Bound.admitsBelow_tighterUpper]
  ac_rfl

/-- **Ranges have no intersection** exactly if they share no key and no gap lies between their
bounds. -/
theorem intersect_eq_none_iff : a.intersect b = none ↔
    (∀ key, ¬ (a.contains key = true ∧ b.contains key = true)) ∧ ¬ (a.clip b).IsGap := by
  have hnone : a.intersect b = none ↔ (a.clip b).isEmpty = true := by
    rw [intersect_eq_clip]
    split <;> simp_all
  rw [hnone, isEmpty_iff]
  simp only [contains_clip, Bool.eq_false_iff, ne_eq, Bool.and_eq_true]

end KeyRange

/-! ### Views -/

namespace View

/-- **Where nothing is left of ranges.**  A range tells that it is empty exactly if it holds no key
and is no gap; two ranges have no intersection exactly if they share no key and the tighter of their
bounds leave no gap; and a restriction of a view that is not empty makes an empty view in exactly
the same case.  A gap holds no key, either. -/
theorem emptiness (v : View) (hv : v.kind ≠ .empty) (a b : KeyRange) :
    (a.isEmpty = true ↔ (∀ key, a.contains key = false) ∧ ¬ a.IsGap) ∧
    (a.intersect b = none ↔
      (∀ key, ¬ (a.contains key = true ∧ b.contains key = true)) ∧ ¬ (a.clip b).IsGap) ∧
    ((v.restrict a).kind = .empty ↔
      (∀ key, ¬ (v.top.range.contains key = true ∧ a.contains key = true)) ∧
        ¬ (v.top.range.clip a).IsGap) ∧
    (a.IsGap → ∀ key, a.contains key = false) := by
  refine ⟨KeyRange.isEmpty_iff, KeyRange.intersect_eq_none_iff, ?_, KeyRange.IsGap.not_contains⟩
  rw [← KeyRange.intersect_eq_none_iff, kind_restrict]
  simp [hv]

/-- The keys before one and the keys from it on are disjoint, and the restriction is an empty
view. -/
theorem emptiness_halves :
    let v := (View.base ⟨.long, .long, Settings.standard, .empty⟩).restrict
      ⟨.unbounded, .exclusive [1]⟩
    let a : KeyRange := ⟨.inclusive [1], .unbounded⟩
    v.kind ≠ .empty ∧ (∀ key, ¬ (v.top.range.contains key = true ∧ a.contains key = true)) ∧
      (v.restrict a).kind = .empty := by
  intro v a
  have hv : v.kind ≠ .empty := by decide
  have hdisjoint : ∀ key, ¬ (v.top.range.contains key = true ∧ a.contains key = true) := by
    rintro key ⟨hbelow, habove⟩
    have hlt : key < [1] := of_decide_eq_true ((KeyRange.contains_iff _ _).1 hbelow).2
    have hge : ¬ key < [1] := of_decide_eq_true ((KeyRange.contains_iff _ _).1 habove).1
    exact hge hlt
  have hgap : ¬ (v.top.range.clip a).IsGap := nofun
  exact ⟨hv, hdisjoint, (emptiness v hv a a).2.2.1.2 ⟨hdisjoint, hgap⟩⟩

/-- The keys behind one and the keys before its follower are disjoint, but their ranges have an
intersection, which does not tell that it is empty, and the restriction is no empty view. -/
theorem gap_between_ranges :
    let above : KeyRange := ⟨.exclusive [0x61], .unbounded⟩
    let below : KeyRange := ⟨.unbounded, .exclusive [0x61, 0]⟩
    let gap : KeyRange := ⟨.exclusive [0x61], .exclusive [0x61, 0]⟩
    let v := (View.base ⟨.long, .long, Settings.standard, .empty⟩).restrict above
    (∀ key, gap.contains key = false) ∧ gap.isEmpty = false ∧
      (∀ key, ¬ (above.contains key = true ∧ below.contains key = true)) ∧
      above.intersect below = some gap ∧ v.top.range = above ∧
      (v.restrict below).kind = .restricted := by
  intro above below gap v
  have hgap : gap.IsGap := .between [0x61]
  have hclip : above.clip below = gap := rfl
  refine ⟨hgap.not_contains, rfl, fun key hkey => ?_, rfl, rfl, rfl⟩
  have hin : gap.contains key = true := by
    rw [← hclip, KeyRange.contains_clip, Bool.and_eq_true]
    exact hkey
  exact Bool.false_ne_true ((hgap.not_contains key).symm.trans hin)

end View

end Strata
