/-
**The count and the extremes of summaries of doubles.**

The least of doubles, and the greatest, passes over whatever is no number; a NaN stands for there
being none, and may as well be one of the doubles.  So an extreme is a NaN exactly when all doubles
are, and else one of them that no other goes beyond.  This is true of a summary that is built double
by double and of one that is merged from parts, however they are cut: parts that hold only NaNs, or
nothing at all, count for the number of doubles and not for the extremes.

* `Number.Chooses`, `Number.chooses_least`, `Number.chooses_greatest` — choosing one of two;
* `Number.Extreme`, `Number.Extreme.append` — **extremes of lists**;
* `Summary.Covers` — the count and the extremes of a summary;
* `Summary.Covers.add`, `Summary.Covers.merge`, `Summary.covers_ofList` — **steps and runs**.
-/

import Strata.Proofs.Number.Comparison
import Strata.Summary

set_option relaxedAutoImplicit false
set_option autoImplicit false

namespace Strata

/-! ### Extremes of doubles -/

namespace Number

theorem isNaN_ne_false {a : Float} (ha : a.isNaN = true) : a.isNaN ≠ false :=
  fun h => Bool.false_ne_true (h.symm.trans ha)

/-- Of two doubles one is chosen: of numbers the one that reaches as far as the other in an order,
and else the one that is a number. -/
structure Chooses (reaches : Float → Float → Prop) (choice : Float → Float → Float) : Prop where
  refl {a : Float} : a.isNaN = false → reaches a a
  trans {a b c : Float} : reaches a b → reaches b c → reaches a c
  left {a b : Float} : a.isNaN = true → choice a b = b
  right {a b : Float} : a.isNaN = false → b.isNaN = true → choice a b = a
  one {a b : Float} : a.isNaN = false → b.isNaN = false →
    choice a b = a ∧ reaches a b ∨ choice a b = b ∧ reaches b a

theorem chooses_least : Chooses (· ≤ ·) least where
  refl := le_refl_of_not_isNaN
  trans := double_le_trans
  left h := by rw [least, if_pos h]
  right {a b} ha hb := by
    have hlt : ¬ b < a := fun h => isNaN_ne_false hb (not_isNaN_of_le (le_of_lt h)).1
    rw [least, ha, if_neg Bool.false_ne_true, if_neg hlt]
  one {a b} ha hb := by
    rw [least, ha, if_neg Bool.false_ne_true]
    split
    · next hlt => exact Or.inr ⟨rfl, le_of_lt hlt⟩
    · next hlt => exact Or.inl ⟨rfl, le_of_not_lt ha hb hlt⟩

theorem chooses_greatest : Chooses (· ≥ ·) greatest where
  refl := le_refl_of_not_isNaN
  trans h₁ h₂ := double_le_trans h₂ h₁
  left h := by rw [greatest, if_pos h]
  right {a b} ha hb := by
    have hlt : ¬ a < b := fun h => isNaN_ne_false hb (not_isNaN_of_le (le_of_lt h)).2
    rw [greatest, ha, if_neg Bool.false_ne_true, if_neg hlt]
  one {a b} ha hb := by
    rw [greatest, ha, if_neg Bool.false_ne_true]
    split
    · next hlt => exact Or.inr ⟨rfl, le_of_lt hlt⟩
    · next hlt => exact Or.inl ⟨rfl, le_of_not_lt hb ha hlt⟩

/-- A double is the extreme of others: one of those that are numbers, which reaches as far as any of
them, or a NaN if none of them is a number. -/
structure Extreme (reaches : Float → Float → Prop) (m : Float) (xs : List Float) : Prop where
  isNaN_iff : m.isNaN = true ↔ ∀ x ∈ xs, x.isNaN = true
  mem : m.isNaN = false → m ∈ xs
  reaches : ∀ x ∈ xs, x.isNaN = false → reaches m x

variable {reaches : Float → Float → Prop} {choice : Float → Float → Float} {a b : Float}
  {xs ys : List Float}

theorem extreme_nil (ha : a.isNaN = true) : Extreme reaches a [] where
  isNaN_iff := iff_of_true ha (by simp)
  mem h := absurd h (isNaN_ne_false ha)
  reaches := by simp

theorem extreme_singleton (h : Chooses reaches choice) : Extreme reaches a [a] where
  isNaN_iff := by simp
  mem _ := by simp
  reaches := by simpa using h.refl

/-- An extreme is that of more doubles, if it reaches as far as these. -/
theorem Extreme.grow (ha : Extreme reaches a xs)
    (hnone : a.isNaN = true → ∀ y ∈ ys, y.isNaN = true)
    (hreaches : ∀ y ∈ ys, y.isNaN = false → reaches a y) : Extreme reaches a (xs ++ ys) where
  isNaN_iff := by
    rw [List.forall_mem_append, ← ha.isNaN_iff]
    exact ⟨fun h => ⟨h, hnone h⟩, fun h => h.1⟩
  mem hm := List.mem_append_left ys (ha.mem hm)
  reaches x hx hnumber := (List.mem_append.1 hx).elim (fun hx => ha.reaches x hx hnumber)
    fun hx => hreaches x hx hnumber

/-- The order of doubles does not matter to their extreme. -/
theorem Extreme.perm (ha : Extreme reaches a xs) (h : xs.Perm ys) : Extreme reaches a ys where
  isNaN_iff := ha.isNaN_iff.trans (forall_congr' fun _ => imp_congr_left h.mem_iff)
  mem hm := h.mem_iff.1 (ha.mem hm)
  reaches x hx := ha.reaches x (h.mem_iff.2 hx)

/-- **The extreme of two lists** is the one that is chosen of their extremes. -/
theorem Extreme.append (h : Chooses reaches choice) (ha : Extreme reaches a xs)
    (hb : Extreme reaches b ys) : Extreme reaches (choice a b) (xs ++ ys) := by
  cases hna : a.isNaN with
  | true =>
      -- the first list holds no number
      rw [h.left hna]
      have hxs := ha.isNaN_iff.1 hna
      refine (hb.grow (fun _ => hxs) fun x hx hnumber => ?_).perm List.perm_append_comm
      exact absurd hnumber (isNaN_ne_false (hxs x hx))
  | false =>
      cases hnb : b.isNaN with
      | true =>
          -- the second list holds none
          rw [h.right hna hnb]
          have hys := hb.isNaN_iff.1 hnb
          refine ha.grow (fun _ => hys) fun y hy hnumber => ?_
          exact absurd hnumber (isNaN_ne_false (hys y hy))
      | false =>
          -- one extreme reaches as far as the other
          rcases h.one hna hnb with ⟨hchoice, hreaches⟩ | ⟨hchoice, hreaches⟩ <;> rw [hchoice]
          · refine ha.grow (fun h => absurd hna (isNaN_ne_false h)) fun y hy hnumber => ?_
            exact h.trans hreaches (hb.reaches y hy hnumber)
          · refine (hb.grow (fun h => absurd hnb (isNaN_ne_false h)) fun x hx hnumber => ?_).perm
              List.perm_append_comm
            exact h.trans hreaches (ha.reaches x hx hnumber)

end Number

/-! ### Summaries -/

namespace Summary

open Number

/-- A summary counts doubles and has their extremes. -/
structure Covers (s : Summary Float) (xs : List Float) : Prop where
  count : s.count = xs.length
  min : Extreme (· ≤ ·) s.min xs
  max : Extreme (· ≥ ·) s.max xs

variable {s t : Summary Float} {xs ys : List Float}

theorem covers_empty : Covers empty [] where
  count := rfl
  min := extreme_nil (by decide)
  max := extreme_nil (by decide)

/-- **One more double.** -/
theorem Covers.add (h : s.Covers xs) (x : Float) : (s.add x).Covers (xs ++ [x]) := by
  have hfirst : s.count + 1 = 1 → xs = [] := by
    intro hone
    rw [h.count] at hone
    simpa using hone
  refine ⟨by rw [count_add, h.count, List.length_append, List.length_singleton], ?_, ?_⟩
  · show Extreme _ (if s.count + 1 = 1 then x else least s.min x) _
    split
    · next hone => rw [hfirst hone]; exact extreme_singleton chooses_least
    · exact h.min.append chooses_least (extreme_singleton chooses_least)
  · show Extreme _ (if s.count + 1 = 1 then x else greatest s.max x) _
    split
    · next hone => rw [hfirst hone]; exact extreme_singleton chooses_greatest
    · exact h.max.append chooses_greatest (extreme_singleton chooses_greatest)

/-- **The doubles of two summaries.** -/
theorem Covers.merge (hs : s.Covers xs) (ht : t.Covers ys) : (s.merge t).Covers (xs ++ ys) := by
  rw [Summary.merge]
  split
  · next hnone =>
    obtain rfl : ys = [] := List.length_eq_zero_iff.1 (ht.count.symm.trans hnone)
    rwa [List.append_nil]
  split
  · next hnone =>
    obtain rfl : xs = [] := List.length_eq_zero_iff.1 (hs.count.symm.trans hnone)
    exact ht
  · refine ⟨?_, hs.min.append chooses_least ht.min, hs.max.append chooses_greatest ht.max⟩
    show s.count + t.count = _
    rw [hs.count, ht.count, List.length_append]

/-- **A summary built double by double** covers them. -/
theorem covers_ofList (xs : List Float) : (ofList xs).Covers xs := by
  have hfold : ∀ (s : Summary Float) ys, s.Covers ys → (xs.foldl add s).Covers (ys ++ xs) := by
    induction xs with
    | nil => intro s ys h; rwa [List.append_nil]
    | cons x xs ih =>
        intro s ys h
        have := ih (s.add x) (ys ++ [x]) (h.add x)
        rwa [List.append_assoc, List.singleton_append] at this
  exact hfold empty [] covers_empty

end Summary

end Strata
