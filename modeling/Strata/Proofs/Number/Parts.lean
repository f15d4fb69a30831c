/-
**Integers of doubles.**

The integer below a double, the integer next to it and the one in the direction of zero are computed
on its mantissa and exponent.  They are the floor of the number, the floor of a half more, and the
floor of the number without its sign.

* `floorOf_eq`, `roundOf_eq`, `truncateOf_eq` — the integers as floors;
* `toInt_floorInt64`, `toInt_roundInt64`, `toInt_truncateInt64` — the same in 64 bits, cut to their
  range;
* `rounds_floor`, `floorWord32_eq` — the integer part as a double, and in 32 bits;
* `Representable.fract` — what is left is a double, too.
-/

import Strata.Proofs.Number.Arithmetic

set_option relaxedAutoImplicit false
set_option autoImplicit false

namespace Strata.Number

theorem zpow_eq_of_nonneg {e : ℤ} (he : 0 ≤ e) : (2 : ℚ) ^ e = ((2 ^ e.toNat : ℕ) : ℚ) :=
  natCast_zpow_of_nonneg 2 he

theorem zpow_eq_of_neg {e : ℤ} (he : ¬ 0 ≤ e) : (2 : ℚ) ^ e = ((2 ^ (-e).toNat : ℕ) : ℚ)⁻¹ :=
  natCast_zpow_of_neg 2 he

theorem signed_mul (negative : Bool) (m n : ℕ) :
    signed negative (m * n) = signed negative m * n := by
  cases negative <;> simp [signed]

theorem floorOf_eq (negative : Bool) (m : ℕ) (e : ℤ) :
    floorOf negative m e = ⌊(signed negative m : ℚ) * 2 ^ e⌋ := by
  rw [floorOf]
  split
  · next he =>
    have hcast : (signed negative m : ℚ) * ((2 ^ e.toNat : ℕ) : ℚ) =
        ((signed negative m * (2 ^ e.toNat : ℕ) : ℤ) : ℚ) := by push_cast; ring
    rw [zpow_eq_of_nonneg he, signed_mul, hcast, Int.floor_intCast]
  · next he =>
    rw [zpow_eq_of_neg he, ← div_eq_mul_inv, Rat.floor_intCast_div_natCast,
      Int.fdiv_eq_ediv_of_nonneg _ (by positivity)]
    norm_cast

/-- The integer part of a number of the grid is on the grid. -/
theorem Representable.floor {q : ℚ} (h : Representable q) : Representable (⌊q⌋ : ℚ) := by
  obtain ⟨m, e, hm, he, rfl⟩ := h
  by_cases hexp : 0 ≤ e
  · have hint : (m : ℚ) * 2 ^ e = ((m * (2 ^ e.toNat : ℕ) : ℤ) : ℚ) := by
      rw [zpow_eq_of_nonneg hexp]
      push_cast
      ring
    rw [hint, Int.floor_intCast, ← hint]
    exact ⟨m, e, hm, he, rfl⟩
  · refine ⟨m / (2 ^ (-e).toNat : ℕ), 0, (Int.abs_ediv_le_abs _ _).trans_lt hm, by norm_num, ?_⟩
    rw [zpow_eq_of_neg hexp, ← div_eq_mul_inv, Rat.floor_intCast_div_natCast, zpow_zero, mul_one]

/-- The integer nearest to a mantissa at an exponent. -/
theorem roundOf_positive (m : ℕ) (e : ℤ) : roundOf false m e = ⌊(m : ℚ) * 2 ^ e + 1 / 2⌋ := by
  rw [roundOf]
  split
  · next he =>
    have hhalf : ⌊((1 : ℚ) / 2)⌋ = 0 := by norm_num
    rw [zpow_eq_of_nonneg he, ← Nat.cast_mul, Int.floor_natCast_add, hhalf, add_zero]
    rfl
  · next he =>
    have hpos : ((2 ^ (-e).toNat : ℕ) : ℚ) ≠ 0 := by positivity
    have hfraction : (m : ℚ) * ((2 ^ (-e).toNat : ℕ) : ℚ)⁻¹ + 1 / 2 =
        ((2 * m + 2 ^ (-e).toNat : ℕ) : ℚ) / ((2 * 2 ^ (-e).toNat : ℕ) : ℚ) := by
      push_cast at hpos ⊢
      field_simp
    rw [zpow_eq_of_neg he, hfraction, Rat.floor_natCast_div_natCast]
    rfl

/-- The nearest integer of a number that is not negative. -/
theorem roundOf_eq {negative : Bool} {m : ℕ} {e : ℤ} (h : 0 ≤ (signed negative m : ℚ) * 2 ^ e) :
    roundOf negative m e = ⌊(signed negative m : ℚ) * 2 ^ e + 1 / 2⌋ := by
  cases negative with
  | false => exact roundOf_positive m e
  | true =>
      -- only a zero can have a sign here
      have hpos : (0 : ℚ) < 2 ^ e := zpow_pos (by norm_num) e
      have hzero : m = 0 := by
        have : (0 : ℚ) ≤ ((signed true m : ℤ) : ℚ) := nonneg_of_mul_nonneg_left h hpos
        have : 0 ≤ signed true m := by exact_mod_cast this
        simp only [signed, if_true] at this
        omega
      have hround : roundOf false 0 e = 0 := by
        rw [roundOf_positive]
        norm_num
      have hswap : roundOf true 0 e = -roundOf false 0 e := by
        rw [roundOf, roundOf]
        split <;> rfl
      rw [hzero, hswap, hround]
      norm_num [signed]

/-- The integer next to a number in the direction of zero. -/
def towardZero (q : ℚ) : ℤ := if 0 ≤ q then ⌊q⌋ else ⌈q⌉

theorem towardZero_neg (q : ℚ) : towardZero (-q) = -towardZero q := by
  rcases lt_trichotomy q 0 with hq | rfl | hq
  · rw [towardZero, towardZero, if_pos (neg_nonneg.2 hq.le), if_neg hq.not_ge, Int.floor_neg]
  · simp [towardZero]
  · rw [towardZero, towardZero, if_neg (not_le.2 (neg_lt_zero.2 hq)), if_pos hq.le, Int.ceil_neg]

/-- A mantissa is cut off in the direction of zero: without its sign it has a floor. -/
theorem truncateOf_eq (negative : Bool) (m : ℕ) (e : ℤ) :
    truncateOf negative m e = towardZero ((signed negative m : ℚ) * 2 ^ e) := by
  have hpositive : truncateOf false m e = towardZero ((signed false m : ℚ) * 2 ^ e) := by
    have hfloor : truncateOf false m e = floorOf false m e := by
      rw [truncateOf, floorOf]
      split
      · rfl
      · rw [Int.fdiv_eq_ediv_of_nonneg _ (by positivity)]
        rfl
    have hnonneg : 0 ≤ (signed false m : ℚ) * 2 ^ e := by
      simp only [signed, Bool.false_eq_true, if_false, Int.cast_natCast]
      positivity
    rw [hfloor, floorOf_eq, towardZero, if_pos hnonneg]
  cases negative with
  | false => exact hpositive
  | true =>
      have hswap : truncateOf true m e = -truncateOf false m e := by
        rw [truncateOf, truncateOf]
        split <;> rfl
      rw [hswap, hpositive, ← towardZero_neg]
      simp [signed]

theorem toInt_ofInt_clamp (n : ℤ) :
    (Int64.ofInt (clamp leastInt64 greatestInt64 n)).toInt = clamp leastInt64 greatestInt64 n := by
  apply Int64.toInt_ofInt_of_le <;> simp only [clamp, leastInt64, greatestInt64] <;> omega

/-- **The integer part of a double.** -/
theorem toInt_floorInt64 {x : Float} (h : IsFinite x) :
    (floorInt64 x).toInt = clamp leastInt64 greatestInt64 ⌊valueOf x⌋ := by
  rw [floorInt64, valueOf]
  cases hreading : reading x with
  | finite negative m e => rw [saturate, toInt_ofInt_clamp, floorOf_eq]; rfl
  | infinite negative => rw [IsFinite, hreading] at h; cases h
  | notANumber => rw [IsFinite, hreading] at h; cases h

/-- **The nearest integer of a double** that is not negative. -/
theorem toInt_roundInt64 {x : Float} (h : IsFinite x) (hx : 0 ≤ valueOf x) :
    (roundInt64 x).toInt = clamp leastInt64 greatestInt64 ⌊valueOf x + 1 / 2⌋ := by
  rw [roundInt64]
  rw [valueOf] at hx ⊢
  cases hreading : reading x with
  | finite negative m e =>
      rw [hreading] at hx
      rw [saturate, toInt_ofInt_clamp, roundOf_eq hx]
      rfl
  | infinite negative => rw [IsFinite, hreading] at h; cases h
  | notANumber => rw [IsFinite, hreading] at h; cases h

/-- **The integer of a double in the direction of zero.** -/
theorem toInt_truncateInt64 {x : Float} (h : IsFinite x) :
    (truncateInt64 x).toInt = clamp leastInt64 greatestInt64 (towardZero (valueOf x)) := by
  rw [truncateInt64, valueOf]
  cases hreading : reading x with
  | finite negative m e => rw [saturate, toInt_ofInt_clamp, truncateOf_eq]; rfl
  | infinite negative => rw [IsFinite, hreading] at h; cases h
  | notANumber => rw [IsFinite, hreading] at h; cases h

/-! ### Integer parts as doubles -/

/-- What the integer part leaves of a number of the grid is on the grid. -/
theorem Representable.fract {q : ℚ} (h : Representable q) (hq : 0 ≤ q) :
    Representable (Int.fract q) := by
  obtain ⟨m, e, hm, he, rfl⟩ := h
  have hpos : (0 : ℚ) < 2 ^ e := zpow_pos (by norm_num) e
  have hm₀ : 0 ≤ m := by
    have : (0 : ℚ) ≤ (m : ℚ) := nonneg_of_mul_nonneg_left hq hpos
    exact_mod_cast this
  by_cases hexp : 0 ≤ e
  · have hint : (m : ℚ) * 2 ^ e = ((m * (2 ^ e.toNat : ℕ) : ℤ) : ℚ) := by
      rw [zpow_eq_of_nonneg hexp]
      push_cast
      ring
    rw [hint, Int.fract_intCast]
    exact Representable.zero
  · -- the lower digits of the mantissa, at the same exponent
    have hunit : (0 : ℤ) < (2 ^ (-e).toNat : ℕ) := by positivity
    have hsplit := Int.mul_ediv_add_emod m (2 ^ (-e).toNat : ℕ)
    refine ⟨m % (2 ^ (-e).toNat : ℕ), e, ?_, he, ?_⟩
    · rw [abs_of_nonneg (Int.emod_nonneg _ hunit.ne')]
      rw [abs_of_nonneg hm₀] at hm
      have hquotient := mul_nonneg hunit.le (Int.ediv_nonneg hm₀ hunit.le)
      linarith
    · have hcast : (m : ℚ) = ((2 ^ (-e).toNat : ℕ) : ℤ) * ((m / (2 ^ (-e).toNat : ℕ) : ℤ) : ℚ) +
          ((m % (2 ^ (-e).toNat : ℕ) : ℤ) : ℚ) := by exact_mod_cast hsplit.symm
      have hne : ((2 ^ (-e).toNat : ℕ) : ℚ) ≠ 0 := by positivity
      rw [Int.fract, zpow_eq_of_neg hexp, ← div_eq_mul_inv, Rat.floor_intCast_div_natCast,
        ← div_eq_mul_inv, eq_div_iff hne, sub_mul, div_mul_cancel₀ _ hne]
      rw [Int.cast_natCast] at hcast
      linarith

/-- **The integer part of a double, as a double.** -/
theorem rounds_floor {x : Float} (h : IsFinite x) (hx : |(⌊valueOf x⌋ : ℚ)| ≤ safeBound) :
    Rounds ⌊valueOf x⌋ (floor x) := by
  have hself : valueOf x = ⌊valueOf x⌋ → Rounds ⌊valueOf x⌋ x := by
    intro hint
    rw [← hint]
    exact ⟨h, Nearest.of_representable (representable_valueOf x)⟩
  rw [floor]
  cases hreading : reading x with
  | finite negative m e =>
      have hvalue : valueOf x = signed negative m * 2 ^ e := by rw [valueOf, hreading]; rfl
      dsimp only
      split
      · next hwhole =>
        refine hself ?_
        rcases hwhole with rfl | he
        · rw [hvalue]
          simp [signed]
        · have hint : valueOf x = ((signed negative m * (2 ^ e.toNat : ℕ) : ℤ) : ℚ) := by
            rw [hvalue, zpow_eq_of_nonneg he]
            push_cast
            ring
          rw [hint, Int.floor_intCast]
      · rw [hvalue, ← floorOf_eq] at hx ⊢
        exact rounds_ofInt hx
  | infinite negative => rw [IsFinite, hreading] at h; cases h
  | notANumber => rw [IsFinite, hreading] at h; cases h

theorem valueOf_floor {x : Float} (h : IsFinite x) (hx : |(⌊valueOf x⌋ : ℚ)| ≤ safeBound) :
    valueOf (floor x) = ⌊valueOf x⌋ :=
  (rounds_floor h hx).valueOf_eq (representable_valueOf x).floor

/-- **The integer part of a double in 32 bits.** -/
theorem floorWord32_eq {x : Float} (h : IsFinite x) (hlow : 0 ≤ valueOf x)
    (hhigh : valueOf x < 2 ^ 32) : (floorWord32 x : ℤ) = ⌊valueOf x⌋ := by
  have hfloor : 0 ≤ ⌊valueOf x⌋ := Int.floor_nonneg.2 hlow
  have hfloor' : ⌊valueOf x⌋ < 2 ^ 32 := Int.floor_lt.2 (by exact_mod_cast hhigh)
  rw [valueOf] at hfloor hfloor' ⊢
  rw [floorWord32]
  cases hreading : reading x with
  | finite negative m e =>
      rw [hreading, Reading.value, ← floorOf_eq] at hfloor hfloor'
      rw [saturate, Reading.value, ← floorOf_eq, clamp]
      omega
  | infinite negative => rw [IsFinite, hreading] at h; cases h
  | notANumber => rw [IsFinite, hreading] at h; cases h

end Strata.Number
