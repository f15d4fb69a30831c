/-
**Comparisons of doubles that are numbers.**

A comparison of two doubles has a result exactly when both are numbers, and turned around it has the
opposite result.  So among numbers, infinities included, the order is total; equality is symmetric
and transitive, and it holds of a double and itself exactly when that is a number.

* `compare_swap`, `isSome_compare` — comparisons turned around, and when they have a result;
* `beq_symm`, `beq_trans`, `beq_self_iff` — **equality of doubles**;
* `le_of_lt`, `le_of_not_lt` — **the order of numbers is total**.
-/

import Strata.Proofs.Number.Order

set_option relaxedAutoImplicit false
set_option autoImplicit false

namespace Strata.Number

open Float.Model Float.Model.UnpackedFloat

/-! ### Forms -/

/-- A comparison turned around has the opposite result. -/
theorem compare_swap (u v : UnpackedFloat) :
    UnpackedFloat.compare v u = (UnpackedFloat.compare u v).map Ordering.swap := by
  have hsigns : ∀ s t : Sign, compare t s = (compare s t).swap := by decide
  have hparts : ∀ (e f : ℤ) (m n : ℕ),
      (compare f e).then (compare n m) = ((compare e f).then (compare m n)).swap := by
    intro e f m n
    rw [Ordering.swap_then, ← Int.compare_swap, ← Nat.compare_swap]
  cases u with
  | notANumber => cases v <;> rfl
  | infinity s =>
      cases v with
      | infinity t => exact congrArg some (hsigns s t)
      | _ => cases s <;> rfl
  | zero s =>
      cases v with
      | infinity t => cases t <;> rfl
      | finite t n f hn => cases t <;> rfl
      | _ => rfl
  | finite s m e hm =>
      cases v with
      | notANumber => rfl
      | infinity t => cases t <;> rfl
      | zero t => cases s <;> rfl
      | finite t n f hn =>
          cases s <;> cases t
          · exact congrArg (fun o => some o.swap) (hparts e f m n)
          · rfl
          · rfl
          · exact congrArg some (hparts e f m n)

/-- A comparison has a result when both sides are numbers. -/
theorem isSome_compare (u v : UnpackedFloat) :
    (UnpackedFloat.compare u v).isSome = (!u.isNaN && !v.isNaN) := by
  cases u with
  | notANumber => rfl
  | infinity s => cases v <;> cases s <;> rfl
  | zero s =>
      cases v with
      | infinity t => cases t <;> rfl
      | finite t n f hn => cases t <;> rfl
      | _ => rfl
  | finite s m e hm =>
      cases v with
      | notANumber => rfl
      | zero t => cases s <;> rfl
      | infinity t => cases t <;> rfl
      | finite t n f hn => cases s <;> cases t <;> rfl

/-! ### Doubles -/

variable {x y z : Float}

theorem isNaN_iff_unpack : x.isNaN = x.toModel.unpack.isNaN := rfl

/-- Numbers compare. -/
theorem exists_compare (hx : x.isNaN = false) (hy : y.isNaN = false) :
    ∃ o, UnpackedFloat.compare x.toModel.unpack y.toModel.unpack = some o := by
  rw [← Option.isSome_iff_exists, isSome_compare, ← isNaN_iff_unpack, ← isNaN_iff_unpack, hx, hy]
  rfl

/-- What compares is a number. -/
theorem not_isNaN_of_compare {o : Ordering}
    (h : UnpackedFloat.compare x.toModel.unpack y.toModel.unpack = some o) :
    x.isNaN = false ∧ y.isNaN = false := by
  have hsome := isSome_compare x.toModel.unpack y.toModel.unpack
  rw [h, Option.isSome_some, ← isNaN_iff_unpack, ← isNaN_iff_unpack] at hsome
  simpa using hsome.symm

theorem beq_symm (h : (x == y) = true) : (y == x) = true := by
  rw [beq_iff_compare] at h ⊢
  rw [compare_swap, h]
  rfl

/-- **A double equals itself exactly when it is a number.** -/
theorem beq_self_iff : (x == x) = true ↔ x.isNaN = false := by
  rw [beq_iff_compare]
  constructor
  · intro h
    exact (not_isNaN_of_compare h).1
  · intro h
    obtain ⟨o, ho⟩ := exists_compare h h
    have hswap := compare_swap x.toModel.unpack x.toModel.unpack
    rw [ho, Option.map_some, Option.some_inj] at hswap
    rw [ho]
    cases o <;> first | rfl | cases hswap

theorem beq_zero_iff : (x == 0) = true ↔ ∃ s, x.toModel.unpack = .zero s := by
  refine ⟨fun h => ?_, beq_zero_of_unpack⟩
  rcases eq_or_zeros_of_compare (beq_iff_compare.1 h) with heq | ⟨hx, -⟩
  · exact ⟨.positive, heq.trans unpack_zero⟩
  · exact hx

theorem beq_of_zeros (hx : (x == 0) = true) (hy : (y == 0) = true) : (x == y) = true := by
  obtain ⟨s, hs⟩ := beq_zero_iff.1 hx
  obtain ⟨t, ht⟩ := beq_zero_iff.1 hy
  rw [beq_iff_compare, hs, ht]
  rfl

theorem beq_trans (hxy : (x == y) = true) (hyz : (y == z) = true) : (x == z) = true := by
  rcases eq_or_zeros_of_beq hxy with rfl | ⟨hx, hy⟩
  · exact hyz
  · rcases eq_or_zeros_of_beq hyz with rfl | ⟨-, hz⟩
    · exact hxy
    · exact beq_of_zeros hx hz

/-! ### The order -/

/-- What is at most something is a number, and so is that. -/
theorem not_isNaN_of_le (h : x ≤ y) : x.isNaN = false ∧ y.isNaN = false := by
  rw [le_iff_unpack_le, UnpackedFloat.le, Option.any_eq_true] at h
  obtain ⟨o, ho, -⟩ := h
  exact not_isNaN_of_compare ho

theorem le_of_lt (h : x < y) : x ≤ y := by
  rw [lt_iff_unpack_lt, UnpackedFloat.lt, beq_iff_eq] at h
  rw [le_iff_unpack_le, UnpackedFloat.le, h]
  rfl

/-- **The order of numbers is total.** -/
theorem le_of_not_lt (hx : x.isNaN = false) (hy : y.isNaN = false) (h : ¬ y < x) : x ≤ y := by
  obtain ⟨o, ho⟩ := exists_compare hx hy
  rw [lt_iff_unpack_lt, UnpackedFloat.lt, compare_swap, ho, beq_iff_eq] at h
  rw [le_iff_unpack_le, UnpackedFloat.le, ho]
  cases o with
  | gt => exact absurd rfl h
  | lt => rfl
  | eq => rfl

theorem le_refl_of_not_isNaN (hx : x.isNaN = false) : x ≤ x := by
  rw [le_iff_unpack_le, UnpackedFloat.le, beq_iff_compare.1 (beq_self_iff.2 hx)]
  rfl

end Strata.Number
