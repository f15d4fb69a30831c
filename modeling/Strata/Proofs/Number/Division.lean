/-
**Sums and quotients of doubles.**

A sum is a difference from what is negated.  A quotient of mantissas has 53 digits and a remainder,
and the remainder says where the exact quotient lies between two mantissas, so it is rounded as any
other result.  Quotients that are too small for that are left aside.

* `add_eq_sub_neg`, `rounds_add` — sums;
* `marks_fraction`, `div_spec`, `rounds_div` — **quotients**.
-/

import Strata.Proofs.Number.Arithmetic

set_option relaxedAutoImplicit false
set_option autoImplicit false

namespace Strata.Number

open Float.Model Float.Model.UnpackedFloat

variable {u v : UnpackedFloat} {x y : Float}

/-! ### Sums -/

/-- Adding is subtracting what is negated. -/
theorem add_eq_sub_neg (u v : UnpackedFloat) :
    UnpackedFloat.add Format.binary64 u v = UnpackedFloat.sub Format.binary64 u v.neg := by
  cases u with
  | notANumber => rfl
  | infinity s => cases v with
    | infinity t => cases s <;> cases t <;> rfl
    | _ => rfl
  | zero s => cases v with
    | infinity t => cases t <;> rfl
    | zero t => cases s <;> cases t <;> rfl
    | finite t n f hn => cases t <;> rfl
    | notANumber => rfl
  | finite s m e hm => cases v with
    | infinity t => cases t <;> rfl
    | finite t n f hn =>
        rw [UnpackedFloat.add, UnpackedFloat.neg, UnpackedFloat.sub]
        simp only [apply_neg, sub_neg_eq_add]
    | _ => rfl

theorem add_spec (hu : Canonical u) (hv : Canonical v) (hu' : (readingOf u).IsFinite)
    (hv' : (readingOf v).IsFinite) :
    RoundsTo ((readingOf u).value + (readingOf v).value)
      (UnpackedFloat.add Format.binary64 u v) := by
  have hneg : (readingOf v.neg).IsFinite := by cases v <;> exact hv'
  have hspec := sub_spec hu (canonical_neg hv) hu' hneg
  rwa [value_neg, sub_neg_eq_add, ← add_eq_sub_neg] at hspec

theorem rounds_add (hx : IsFinite x) (hy : IsFinite y) (h : |valueOf x + valueOf y| ≤ safeBound) :
    Rounds (valueOf x + valueOf y) (x + y) := by
  have hspec := add_spec (canonical_toModel x) (canonical_toModel y) (isFinite_unpack hx)
    (isFinite_unpack hy)
  rw [← valueOf_eq, ← valueOf_eq] at hspec
  exact hspec.rounds h

/-! ### Quotients -/

/-- What a division leaves says where the exact quotient lies above the whole one. -/
theorem marks_fraction (quotient : Nat) {rest divisor : Nat} (h : rest < divisor) :
    Marks (.ofMantissaAndAccuracy quotient (accuracyOfFraction rest divisor))
      (quotient + rest / divisor) := by
  have hdivisor : (0 : ℚ) < divisor := by exact_mod_cast (Nat.zero_le rest).trans_lt h
  have hone : (rest : ℚ) / divisor < 1 := (div_lt_one hdivisor).2 (by exact_mod_cast h)
  rw [accuracyOfFraction]
  split
  · next hzero =>
    rw [hzero, Nat.cast_zero, zero_div, add_zero]
    exact marks_exact quotient
  · next hrest =>
    have hpos : (0 : ℚ) < rest / divisor :=
      div_pos (by exact_mod_cast Nat.pos_of_ne_zero hrest) hdivisor
    rcases lt_trichotomy (2 * rest) divisor with hlt | heq | hgt
    · have hhalf : (rest : ℚ) / divisor < 1 / 2 := by
        rw [div_lt_div_iff₀ hdivisor two_pos]
        exact_mod_cast (by omega : rest * 2 < 1 * divisor)
      rw [Nat.compare_eq_lt.2 hlt]
      show (quotient : ℚ) < _ ∧ _ < (quotient : ℚ) + 1 / 2
      constructor <;> linarith
    · have hhalf : (rest : ℚ) / divisor = 1 / 2 := by
        rw [div_eq_div_iff hdivisor.ne' two_ne_zero]
        exact_mod_cast (by omega : rest * 2 = 1 * divisor)
      rw [Nat.compare_eq_eq.2 heq, hhalf]
      rfl
    · have hhalf : 1 / 2 < (rest : ℚ) / divisor := by
        rw [div_lt_div_iff₀ two_pos hdivisor]
        exact_mod_cast (by omega : 1 * divisor < rest * 2)
      rw [Nat.compare_eq_gt.2 hgt]
      show (quotient : ℚ) + 1 / 2 < _ ∧ _ < (quotient : ℚ) + 1
      constructor <;> linarith

/-- A positive number lies between two powers of two. -/
theorem log2_bounds {m : Nat} (hm : 0 < m) (e : ℤ) :
    (2 : ℚ) ^ ((m.log2 : ℤ) + e) ≤ m * 2 ^ e ∧ (m : ℚ) * 2 ^ e < 2 ^ ((m.log2 : ℤ) + e + 1) := by
  have hpos : (0 : ℚ) < 2 ^ e := zpow_pos (by norm_num) e
  have hlow : ((2 ^ m.log2 : Nat) : ℚ) ≤ m := by exact_mod_cast Nat.log2_self_le hm.ne'
  have hhigh : (m : ℚ) < ((2 ^ (m.log2 + 1) : Nat) : ℚ) := by exact_mod_cast Nat.lt_log2_self
  push_cast at hlow hhigh
  constructor
  · rw [zpow_add₀ (by norm_num), zpow_natCast]
    exact mul_le_mul_of_nonneg_right hlow hpos.le
  · rw [show (m.log2 : ℤ) + e + 1 = ((m.log2 + 1 : Nat) : ℤ) + e by push_cast; ring,
      zpow_add₀ (by norm_num), zpow_natCast]
    exact mul_lt_mul_of_pos_right hhigh hpos

/-- The exponents of a quotient that is not too small. -/
theorem log2_sub_of_le {m n : Nat} {e f : ℤ} (hm : 0 < m) (hn : 0 < n)
    (h : 2 ^ (-1021 : ℤ) ≤ (m : ℚ) * 2 ^ e / (n * 2 ^ f)) :
    -1021 ≤ (m.log2 : ℤ) + e - (n.log2 + f) := by
  obtain ⟨hlow, -⟩ := log2_bounds hn f
  obtain ⟨-, hhigh⟩ := log2_bounds hm e
  have hpos : (0 : ℚ) < n * 2 ^ f := (zpow_pos (by norm_num) _).trans_le hlow
  rw [le_div_iff₀ hpos] at h
  have hlt : (2 : ℚ) ^ (-1021 + ((n.log2 : ℤ) + f)) < 2 ^ ((m.log2 : ℤ) + e + 1) := by
    rw [zpow_add₀ (by norm_num)]
    refine lt_of_le_of_lt (mul_le_mul_of_nonneg_left hlow ?_) (h.trans_lt hhigh)
    exact (zpow_pos (by norm_num) _).le
  have := (zpow_lt_zpow_iff_right₀ (by norm_num : (1 : ℚ) < 2)).1 hlt
  omega

theorem apply_div (s t : Sign) : ((s / t).apply 1 : ℚ) = s.apply 1 / t.apply 1 := by
  cases s <;> cases t <;> norm_num [Sign.apply] <;> rfl

/-- A division shifts the mantissa up until the quotient has 53 digits or the least exponent. -/
theorem exists_divCore {m n : Nat} (e f : ℤ) (hm : 0 < m) (hn : 0 < n) :
    ∃ k : Nat, divCore Format.binary64 m e n f =
        (m <<< k / n, e - f - k, accuracyOfFraction (m <<< k % n) n) ∧
      (2 ^ 52 ≤ m <<< k / n ∨
        e - f - k ≤ -1074 ∧ (m.log2 : ℤ) + e - (n.log2 + f) < -1021) := by
  have htarget : Format.binary64.targetExponent (totalExponent m e - totalExponent n f) =
      max ((m.log2 : ℤ) + e - (n.log2 + f) - 53) (-1074) := by
    simp only [Format.targetExponent, totalExponent, Format.mantissaBits, Format.minExponent]
    norm_num
    omega
  generalize hk : (e - f -
    min (e - f) (max ((m.log2 : ℤ) + e - (n.log2 + f) - 53) (-1074))).toNat = k
  have hexponent : min (e - f) (max ((m.log2 : ℤ) + e - (n.log2 + f) - 53) (-1074)) =
      e - f - k := by omega
  refine ⟨k, by rw [divCore, htarget, ← hexponent, ← hk], ?_⟩
  by_cases hlow : -1021 ≤ (m.log2 : ℤ) + e - (n.log2 + f)
  · left
    have hlong : 53 + n.log2 ≤ (m <<< k).log2 := by
      rw [log2_shiftLeft hm]
      omega
    have hpos : 0 < m <<< k := by
      rw [Nat.shiftLeft_eq]
      positivity
    rw [Nat.le_div_iff_mul_le hn]
    calc 2 ^ 52 * n ≤ 2 ^ 52 * 2 ^ (n.log2 + 1) := Nat.mul_le_mul_left _ Nat.lt_log2_self.le
      _ = 2 ^ (53 + n.log2) := by rw [← pow_add]; congr 1; omega
      _ ≤ m <<< k := (Nat.le_log2 hpos.ne').1 hlong
  · exact Or.inr ⟨by omega, by omega⟩

/-- A quotient and what it leaves are the exact quotient. -/
theorem quotient_add_rest (m k : Nat) {n : Nat} (e f : ℤ) (hn : 0 < n) :
    (((m <<< k / n : Nat) : ℚ) + (m <<< k % n : Nat) / n) * 2 ^ (e - f - k : ℤ) =
      (m * 2 ^ e) / (n * 2 ^ f) := by
  have hn0 : (n : ℚ) ≠ 0 := by exact_mod_cast hn.ne'
  have hwhole : ((m <<< k / n : Nat) : ℚ) + (m <<< k % n : Nat) / n = (m <<< k : Nat) / n := by
    rw [eq_div_iff hn0, add_mul, div_mul_cancel₀ _ hn0]
    exact_mod_cast Nat.div_add_mod' (m <<< k) n
  calc (((m <<< k / n : Nat) : ℚ) + (m <<< k % n : Nat) / n) * 2 ^ (e - f - k : ℤ)
      = ((m <<< k : Nat) * 2 ^ (e - f - k : ℤ)) / n := by rw [hwhole]; ring
    _ = m * 2 ^ (e - f) / n := by rw [shiftLeft_mul_zpow m k (e - f)]
    _ = (m * 2 ^ e) / (n * 2 ^ f) := by
        rw [zpow_sub₀ (by norm_num)]
        ring

/-- **The quotient of two mantissas**, rounded by what the division leaves. -/
theorem divCore_spec (s t : Sign) {m n : Nat} {e f : ℤ} (hm : 0 < m) (hn : 0 < n)
    (hlow : -1021 ≤ (m.log2 : ℤ) + e - (n.log2 + f)) :
    RoundsTo ((s.apply m * 2 ^ e) / (t.apply n * 2 ^ f))
      (roundWithAccuracy Format.binary64 (s / t) (divCore Format.binary64 m e n f).1
        (divCore Format.binary64 m e n f).2.1 (divCore Format.binary64 m e n f).2.2) := by
  obtain ⟨k, hcore, hdigits⟩ := exists_divCore e f hm hn
  have hquotient : 2 ^ 52 ≤ m <<< k / n := hdigits.resolve_right (by omega)
  have hqpos : 0 < m <<< k / n := by omega
  have hlog : 52 ≤ (m <<< k / n).log2 := (Nat.le_log2 hqpos.ne').2 hquotient
  have hspec := roundWithAccuracy_spec (s / t) (e := e - f - k) hqpos
    (marks_fraction (m <<< k / n) (Nat.mod_lt (m <<< k) hn)) (by omega)
  have hvalue : ((s / t).apply 1 : ℚ) * (((m <<< k / n : Nat) : ℚ) + (m <<< k % n : Nat) / n) *
      2 ^ (e - f - k : ℤ) = (s.apply m * 2 ^ e) / (t.apply n * 2 ^ f) := by
    rw [mul_assoc, quotient_add_rest m k e f hn, apply_div, apply_eq_mul s m, apply_eq_mul t n]
    push_cast
    ring
  rw [hvalue] at hspec
  rw [hcore]
  exact hspec

theorem div_spec (hu' : (readingOf u).IsFinite) (hv' : (readingOf v).IsFinite)
    (hv : (readingOf v).value ≠ 0)
    (hlow : (readingOf u).value = 0 ∨
      2 ^ (-1021 : ℤ) ≤ |(readingOf u).value / (readingOf v).value|) :
    RoundsTo ((readingOf u).value / (readingOf v).value)
      (UnpackedFloat.div Format.binary64 u v) := by
  cases v with
  | notANumber => cases hv'
  | infinity t => cases hv'
  | zero t => exact absurd (value_zero t) hv
  | finite t n f hn =>
      cases u with
      | notANumber => cases hu'
      | infinity s => cases hu'
      | zero s =>
          rw [value_zero, zero_div]
          exact roundsTo_zero _
      | finite s m e hm =>
          have hpos : (0 : ℚ) < m * 2 ^ e :=
            mul_pos (by exact_mod_cast hm) (zpow_pos (by norm_num) e)
          rw [value_finite, value_finite] at hlow ⊢
          refine divCore_spec s t hm hn (log2_sub_of_le hm hn ?_)
          have habs : ∀ (s : Sign) (m : Nat) (e : ℤ), |(s.apply m : ℚ) * 2 ^ e| = m * 2 ^ e := by
            intro s m e
            rw [abs_mul, abs_apply, abs_of_pos (zpow_pos (by norm_num) e)]
          rcases hlow with hzero | hlow
          · rw [← abs_eq_zero, habs] at hzero
            exact absurd hzero hpos.ne'
          · rwa [abs_div, habs, habs] at hlow

/-- **A quotient of doubles** that is neither too great nor too small. -/
theorem rounds_div (hx : IsFinite x) (hy : IsFinite y) (hy' : valueOf y ≠ 0)
    (hlow : valueOf x = 0 ∨ 2 ^ (-1021 : ℤ) ≤ |valueOf x / valueOf y|)
    (h : |valueOf x / valueOf y| ≤ safeBound) : Rounds (valueOf x / valueOf y) (x / y) := by
  rw [valueOf_eq, valueOf_eq] at hlow
  rw [valueOf_eq] at hy'
  have hspec := div_spec (isFinite_unpack hx) (isFinite_unpack hy) hy' hlow
  rw [← valueOf_eq, ← valueOf_eq] at hspec
  exact hspec.rounds h

end Strata.Number
