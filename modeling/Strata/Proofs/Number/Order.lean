/-
**Arithmetic and the order of doubles.**

Rounding keeps the order of numbers that differ.  Numbers that are equal come from equal doubles,
or from zeros, whose sums and products are exact; so sums and products of doubles keep the order
without exception.

* `lt_iff_valueOf_lt`, `beq_iff_valueOf_eq` — comparisons as comparisons of numbers;
* `double_le_trans` — the order of doubles is transitive;
* `valueOf_add_le`, `valueOf_mul_le` — **sums and products keep the order**.
-/

import Strata.Proofs.Number.Division
import Strata.Proofs.Number.Equality

set_option relaxedAutoImplicit false
set_option autoImplicit false

namespace Strata.Number

open Float.Model Float.Model.UnpackedFloat

variable {x y x' y' : Float}

/-! ### Comparisons -/

theorem lt_iff_unpack_lt : x < y ↔ UnpackedFloat.lt x.toModel.unpack y.toModel.unpack = true := by
  show decide (UnpackedFloat.lt x.toModel.unpack y.toModel.unpack = true) = true ↔ _
  rw [decide_eq_true_iff]

theorem lt_iff_valueOf_lt (hx : IsFinite x) (hy : IsFinite y) : x < y ↔ valueOf x < valueOf y := by
  have hcompare := compare_spec (canonical_toModel x) (canonical_toModel y) (isFinite_unpack hx)
    (isFinite_unpack hy)
  rw [← valueOf_eq, ← valueOf_eq] at hcompare
  rw [lt_iff_unpack_lt, UnpackedFloat.lt, hcompare, beq_iff_eq, Option.some.injEq]
  exact compare_lt_iff_lt

theorem beq_iff_valueOf_eq (hx : IsFinite x) (hy : IsFinite y) :
    (x == y) = true ↔ valueOf x = valueOf y := by
  have hcompare := compare_spec (canonical_toModel x) (canonical_toModel y) (isFinite_unpack hx)
    (isFinite_unpack hy)
  rw [← valueOf_eq, ← valueOf_eq] at hcompare
  rw [beq_iff_compare, hcompare, Option.some.injEq]
  exact compare_eq_iff_eq

/-- A double that equals a number is that number. -/
theorem valueOf_of_beq (h : (x == y) = true) (hy : IsFinite y) :
    IsFinite x ∧ valueOf x = valueOf y := by
  have hx : IsFinite x := by
    rcases eq_or_zeros_of_compare (beq_iff_compare.1 h) with heq | ⟨⟨s, hs⟩, -⟩
    · rwa [eq_of_unpack heq]
    · rw [IsFinite, reading_eq, hs]
      trivial
  exact ⟨hx, (beq_iff_valueOf_eq hx hy).1 h⟩

/-- From a finite double on, the order is transitive. -/
theorem le_trans_of_finite {z : Float} (hx : IsFinite x) (h₁ : x ≤ y) (h₂ : y ≤ z) : x ≤ z := by
  by_cases hz : IsFinite z
  · have hy := isFinite_of_le_of_le hx hz h₁ h₂
    rw [le_iff_valueOf_le hx hz]
    exact ((le_iff_valueOf_le hx hy).1 h₁).trans ((le_iff_valueOf_le hy hz).1 h₂)
  · have hx := isFinite_unpack hx
    rw [IsFinite, reading_eq] at hz
    rw [le_iff_unpack_le] at h₁ h₂ ⊢
    cases hw : z.toModel.unpack with
    | finite s m e hm => rw [hw] at hz; exact absurd trivial hz
    | zero s => rw [hw] at hz; exact absurd trivial hz
    | notANumber =>
        rw [hw] at h₂
        cases hv : y.toModel.unpack <;> rw [hv] at h₂ <;> cases h₂
    | infinity s =>
        rw [hw] at h₂
        cases s with
        | positive => cases hu : x.toModel.unpack <;> rw [hu] at hx <;> first | rfl | cases hx
        | negative =>
            -- only the negative infinity is at most itself
            cases hv : y.toModel.unpack with
            | infinity t =>
                rw [hv] at h₁ h₂
                cases t with
                | positive => cases h₂
                | negative => exact h₁
            | _ => rw [hv] at h₂; cases h₂

/-- **The order of doubles is transitive**, whether they are numbers or not. -/
theorem double_le_trans {z : Float} (h₁ : x ≤ y) (h₂ : y ≤ z) : x ≤ z := by
  by_cases hx : IsFinite x
  · exact le_trans_of_finite hx h₁ h₂
  · rw [IsFinite, reading_eq] at hx
    rw [le_iff_unpack_le] at h₁ h₂ ⊢
    cases hu : x.toModel.unpack with
    | finite s m e hm => rw [hu] at hx; exact absurd trivial hx
    | zero s => rw [hu] at hx; exact absurd trivial hx
    | notANumber => rw [hu] at h₁; cases h₁
    | infinity s =>
        rw [hu] at h₁
        cases s with
        | positive =>
            -- only the positive infinity is at least itself
            cases hv : y.toModel.unpack with
            | infinity t =>
                rw [hv] at h₁ h₂
                cases t with
                | positive => exact h₂
                | negative => cases h₁
            | _ => rw [hv] at h₁; cases h₁
        | negative =>
            cases hw : z.toModel.unpack with
            | notANumber =>
                rw [hw] at h₂
                cases hv : y.toModel.unpack <;> rw [hv] at h₂ <;> cases h₂
            | infinity t => cases t <;> rfl
            | _ => rfl

/-! ### Sums and products -/

/-- **Sums keep the order.** -/
theorem valueOf_add_le (hx : IsFinite x) (hy : IsFinite y) (hx' : IsFinite x') (hy' : IsFinite y')
    (h : |valueOf x + valueOf y| ≤ safeBound) (h' : |valueOf x' + valueOf y'| ≤ safeBound)
    (hxx : valueOf x ≤ valueOf x') (hyy : valueOf y ≤ valueOf y') :
    valueOf (x + y) ≤ valueOf (x' + y') := by
  have hsum := rounds_add hx hy h
  have hsum' := rounds_add hx' hy' h'
  rcases (add_le_add hxx hyy).lt_or_eq with hlt | heq
  · exact hsum.nearest.mono hsum'.nearest hlt
  · -- both parts are equal; they are the same doubles, or the sum is exact
    have hx₀ : valueOf x = valueOf x' := by linarith
    have hy₀ : valueOf y = valueOf y' := by linarith
    by_cases hrep : Representable (valueOf x + valueOf y)
    · rw [hsum.valueOf_eq hrep, hsum'.valueOf_eq (heq ▸ hrep), heq]
    · have hxne : valueOf x ≠ 0 := by
        intro hzero
        rw [hzero, zero_add] at hrep
        exact hrep (representable_valueOf y)
      have hyne : valueOf y ≠ 0 := by
        intro hzero
        rw [hzero, add_zero] at hrep
        exact hrep (representable_valueOf x)
      rw [eq_of_valueOf_eq hx hx' hx₀ hxne, eq_of_valueOf_eq hy hy' hy₀ hyne]

/-- **Products with a double that is not negative keep the order.** -/
theorem valueOf_mul_le (hx : IsFinite x) (hx' : IsFinite x') (hy : IsFinite y)
    (h : |valueOf x * valueOf y| ≤ safeBound) (h' : |valueOf x' * valueOf y| ≤ safeBound)
    (hxx : valueOf x ≤ valueOf x') (hpos : 0 ≤ valueOf y) :
    valueOf (x * y) ≤ valueOf (x' * y) := by
  have hmul := rounds_mul hx hy h
  have hmul' := rounds_mul hx' hy h'
  rcases (mul_le_mul_of_nonneg_right hxx hpos).lt_or_eq with hlt | heq
  · exact hmul.nearest.mono hmul'.nearest hlt
  · by_cases hzero : valueOf x * valueOf y = 0
    · have hrep : Representable (valueOf x * valueOf y) := hzero ▸ Representable.zero
      rw [hmul.valueOf_eq hrep, hmul'.valueOf_eq (heq ▸ hrep), heq]
    · obtain ⟨hxne, hyne⟩ := mul_ne_zero_iff.1 hzero
      rw [eq_of_valueOf_eq hx hx' (mul_right_cancel₀ hyne heq) hxne]

end Strata.Number
