/-
**Rounding to a double.**

The numbers that have a double form a grid: a mantissa of 53 bits times a power of two that is not
too small.  Whatever an operation rounds goes to a nearest point of the grid.  From this alone
follow the facts that proofs about doubles use: a number of the grid is not changed, and rounding
keeps the order.

* `Representable`, `Nearest` — the grid, and its nearest points;
* `Nearest.eq`, `Nearest.mono` — **rounding keeps what is exact, and keeps the order**;
* `Nearest.abs_sub_le` — rounding moves a number by half a unit of the last place;
* `Marks` — what the digits that were shifted out say about the exact number;
* `roundWithAccuracy_spec`, `round_spec`, `normalize_spec` — rounding goes to a nearest point.
-/

import Strata.Proofs.Number.Exact

set_option relaxedAutoImplicit false
set_option autoImplicit false

namespace Strata.Number

open Float.Model Float.Model.UnpackedFloat

/-! ### Powers in whole numbers -/

theorem natCast_zpow_of_nonneg (b : ℕ) {e : ℤ} (he : 0 ≤ e) :
    (b : ℚ) ^ e = ((b ^ e.toNat : ℕ) : ℚ) := by
  rw [Nat.cast_pow, ← zpow_natCast, Int.toNat_of_nonneg he]

theorem natCast_zpow_of_neg (b : ℕ) {e : ℤ} (he : ¬ 0 ≤ e) :
    (b : ℚ) ^ e = ((b ^ (-e).toNat : ℕ) : ℚ)⁻¹ := by
  rw [← natCast_zpow_of_nonneg b (by omega), zpow_neg, inv_inv]

/-! ### The grid of doubles -/

/-- A mantissa of 53 bits at an exponent that is not too small. -/
def Representable (q : ℚ) : Prop :=
  ∃ (m : ℤ) (e : ℤ), |m| < 2 ^ 53 ∧ -1074 ≤ e ∧ q = m * 2 ^ e

/-- A point of the grid than which none is nearer to `q`. -/
structure Nearest (q y : ℚ) : Prop where
  representable : Representable y
  le_of_representable : ∀ z, Representable z → |q - y| ≤ |q - z|

theorem Nearest.of_representable {q : ℚ} (h : Representable q) : Nearest q q :=
  ⟨h, fun z _ => by simp⟩

/-- **A number of the grid is rounded to itself.** -/
theorem Nearest.eq {q y : ℚ} (h : Nearest q y) (hq : Representable q) : y = q := by
  have := h.le_of_representable q hq
  rw [sub_self, abs_zero] at this
  linarith [abs_eq_zero.1 (le_antisymm this (abs_nonneg _))]

/-- **Rounding keeps the order.**  Were the points crossed, one of the numbers would be nearer to
the point of the other. -/
theorem Nearest.mono {q₁ q₂ y₁ y₂ : ℚ} (h₁ : Nearest q₁ y₁) (h₂ : Nearest q₂ y₂) (h : q₁ < q₂) :
    y₁ ≤ y₂ := by
  by_contra hlt
  have ha := h₁.le_of_representable y₂ h₂.representable
  have hb := h₂.le_of_representable y₁ h₁.representable
  have hpos := mul_pos (sub_pos.2 h) (sub_pos.2 (not_le.1 hlt))
  linarith [sq_le_sq.2 ha, sq_le_sq.2 hb]

/-- Rounding does not leave bounds that lie on the grid. -/
theorem Nearest.le {q y b : ℚ} (h : Nearest q y) (hb : Representable b) (hq : q ≤ b) : y ≤ b := by
  rcases hq.lt_or_eq with hlt | rfl
  · exact h.mono (Nearest.of_representable hb) hlt
  · exact (h.eq hb).le

theorem Nearest.ge {q y b : ℚ} (h : Nearest q y) (hb : Representable b) (hq : b ≤ q) : b ≤ y := by
  rcases hq.lt_or_eq with hlt | rfl
  · exact (Nearest.of_representable hb).mono h hlt
  · exact (h.eq hb).ge

theorem Representable.neg {q : ℚ} (h : Representable q) : Representable (-q) := by
  obtain ⟨m, e, hm, he, rfl⟩ := h
  exact ⟨-m, e, by rwa [abs_neg], he, by push_cast; ring⟩

theorem Nearest.neg {q y : ℚ} (h : Nearest q y) : Nearest (-q) (-y) := by
  refine ⟨h.representable.neg, ?_⟩
  intro z hz
  calc |-q - -y| = |q - y| := by rw [neg_sub_neg, abs_sub_comm]
    _ ≤ |q - -z| := h.le_of_representable (-z) hz.neg
    _ = |-q - z| := by
      rw [← abs_neg]
      ring_nf

theorem Nearest.abs_le_of {q y b : ℚ} (h : Nearest q y) (hb : Representable b) (hq : |q| ≤ b) :
    |y| ≤ b := by
  obtain ⟨hlow, hhigh⟩ := abs_le.1 hq
  exact abs_le.2 ⟨h.ge hb.neg hlow, h.le hb hhigh⟩

theorem Representable.of_multiple {m e : ℤ} (hm : |m| ≤ 2 ^ 53) (he : -1074 ≤ e) :
    Representable (m * 2 ^ e) := by
  rcases hm.lt_or_eq with hlt | heq
  · exact ⟨m, e, hlt, he, rfl⟩
  · -- the greatest mantissa is even, so the exponent can be one greater
    refine ⟨m / 2, e + 1, ?_, by omega, ?_⟩
    · rw [abs_lt]
      rcases abs_cases m with ⟨h, _⟩ | ⟨h, _⟩ <;> constructor <;> omega
    · have hhalf : m = m / 2 * 2 := by rcases abs_cases m with ⟨h, _⟩ | ⟨h, _⟩ <;> omega
      rw [zpow_add_one₀ (by norm_num)]
      nth_rewrite 1 [hhalf]
      push_cast
      ring

/-- **Rounding moves a number by half a unit of the last place at most.** -/
theorem Nearest.abs_sub_le {q y : ℚ} (h : Nearest q y) {k : ℤ} (hk : -1075 ≤ k)
    (hq : |q| ≤ 2 ^ (k + 54)) : |q - y| ≤ 2 ^ k := by
  have hpos : (0 : ℚ) < 2 ^ (k + 1) := zpow_pos (by norm_num) _
  have hscaled : |q / 2 ^ (k + 1)| ≤ 2 ^ 53 := by
    rw [abs_div, abs_of_pos hpos, div_le_iff₀ hpos, mul_comm]
    rwa [show k + 54 = k + 1 + 53 by ring, zpow_add₀ (by norm_num)] at hq
  -- the integer nearest to the number, in units of the last place
  obtain ⟨m, hround⟩ : ∃ m : ℤ, |q / 2 ^ (k + 1) - m| ≤ 1 / 2 := ⟨_, abs_sub_round _⟩
  have hfits : |m| ≤ 2 ^ 53 := by
    obtain ⟨hlow, hhigh⟩ := abs_le.1 hscaled
    obtain ⟨hbelow, habove⟩ := abs_le.1 hround
    have hupper : m < 2 ^ 53 + 1 := by
      have : (m : ℚ) < 2 ^ 53 + 1 := by linarith
      exact_mod_cast this
    have hlower : -(2 ^ 53 + 1) < m := by
      have : -(2 ^ 53 + 1) < (m : ℚ) := by linarith
      exact_mod_cast this
    exact abs_le.2 ⟨by omega, by omega⟩
  have hunits : q - m * 2 ^ (k + 1) = (q / 2 ^ (k + 1) - m) * 2 ^ (k + 1) := by
    rw [sub_mul, div_mul_cancel₀ _ hpos.ne']
  calc |q - y| ≤ |q - m * 2 ^ (k + 1)| :=
        h.le_of_representable _ (Representable.of_multiple hfits (by omega))
    _ = |q / 2 ^ (k + 1) - m| * 2 ^ (k + 1) := by rw [hunits, abs_mul, abs_of_pos hpos]
    _ ≤ 1 / 2 * 2 ^ (k + 1) := mul_le_mul_of_nonneg_right hround hpos.le
    _ = 2 ^ k := by
      rw [zpow_add_one₀ (by norm_num)]
      ring

theorem Representable.two_zpow {e : ℤ} (he : -1074 ≤ e) : Representable (2 ^ e) :=
  ⟨1, e, by norm_num, he, by simp⟩

theorem Representable.zero : Representable 0 := ⟨0, 0, by norm_num, by norm_num, by simp⟩

theorem Representable.one : Representable 1 := ⟨1, 0, by norm_num, by norm_num, by simp⟩

/-- Scaling up by a power of two is exact. -/
theorem Representable.mul_two_pow {q : ℚ} (h : Representable q) (k : ℕ) :
    Representable (2 ^ k * q) := by
  obtain ⟨m, e, hm, he, rfl⟩ := h
  refine ⟨m, e + k, hm, by omega, ?_⟩
  rw [zpow_add₀ (by norm_num), zpow_natCast]
  ring

/-- A number of the grid that is not small is a multiple of a power of two that is not small. -/
theorem Representable.exists_multiple {q : ℚ} (h : Representable q) {k : ℤ} (hk : 2 ^ k ≤ |q|) :
    ∃ n : ℤ, q = n * 2 ^ (k - 52) := by
  obtain ⟨m, e, hm, -, rfl⟩ := h
  have hexp : k < 53 + e := by
    have hm' : |(m : ℚ)| < 2 ^ (53 : ℤ) := by exact_mod_cast hm
    have hpos : (0 : ℚ) < 2 ^ e := zpow_pos (by norm_num) e
    refine (zpow_lt_zpow_iff_right₀ (by norm_num : (1 : ℚ) < 2)).1 ?_
    rw [zpow_add₀ (by norm_num)]
    rw [abs_mul, abs_of_pos hpos] at hk
    exact hk.trans_lt (mul_lt_mul_of_pos_right hm' hpos)
  refine ⟨m * 2 ^ (e - (k - 52)).toNat, ?_⟩
  push_cast
  rw [← zpow_natCast, Int.toNat_of_nonneg (by omega), mul_assoc, ← zpow_add₀ (by norm_num),
    sub_add_cancel]

/-- An integer at most a half away is a nearest one. -/
theorem half_le_abs_sub {R : ℚ} {N k : ℤ} (hN : |R - N| ≤ 1 / 2) : |R - N| ≤ |R - k| := by
  by_cases hk : k = N
  · rw [hk]
  · have hone : (1 : ℚ) ≤ |(k : ℚ) - N| := by
      have : 1 ≤ |k - N| := Int.one_le_abs (sub_ne_zero.2 hk)
      exact_mod_cast this
    have := abs_sub_abs_le_abs_sub ((k : ℚ) - N) (R - N)
    have hswap : |(k : ℚ) - N - (R - N)| = |R - k| := by rw [abs_sub_comm]; ring_nf
    linarith

/-- An integer nearest to a number, both in units of the last place, is a nearest point of the grid:
where the grid is finer it is below all that is rounded here. -/
theorem nearest_of_scaled {R : ℚ} {N t : ℤ} (ht : -1074 ≤ t) (hN : |R - N| ≤ 1 / 2)
    (hlarge : 2 ^ 52 ≤ |R| ∨ t = -1074) (hsmall : |N| ≤ 2 ^ 53) :
    Nearest (R * 2 ^ t) (N * 2 ^ t) := by
  have hpos : (0 : ℚ) < 2 ^ t := zpow_pos (by norm_num) t
  refine ⟨Representable.of_multiple hsmall ht, ?_⟩
  rintro _ ⟨m, e, hm, he, rfl⟩
  -- measured in units of the last place of the result
  have hunits : (m : ℚ) * 2 ^ e = m * 2 ^ (e - t) * 2 ^ t := by
    rw [mul_assoc, ← zpow_add₀ (by norm_num), sub_add_cancel]
  rw [hunits, ← sub_mul, ← sub_mul, abs_mul, abs_mul, abs_of_pos hpos]
  refine mul_le_mul_of_nonneg_right ?_ hpos.le
  by_cases hexp : t ≤ e
  · have hint : (m : ℚ) * 2 ^ (e - t) = (m * 2 ^ (e - t).toNat : ℤ) := by
      push_cast
      rw [← zpow_natCast, Int.toNat_of_nonneg (by omega)]
    rw [hint]
    exact half_le_abs_sub hN
  · -- below the grid of the result lie numbers that are less than it by magnitude
    have hR : 2 ^ 52 ≤ |R| := hlarge.resolve_right (by omega)
    have hz : |(m : ℚ) * 2 ^ (e - t)| < 2 ^ 52 := by
      have hm' : |(m : ℚ)| < 2 ^ 53 := by exact_mod_cast hm
      have hhalf : (2 : ℚ) ^ (e - t) ≤ 2 ^ (-1 : ℤ) := zpow_le_zpow_right₀ (by norm_num) (by omega)
      rw [abs_mul, abs_of_pos (zpow_pos (by norm_num : (0 : ℚ) < 2) _)]
      calc |(m : ℚ)| * 2 ^ (e - t) ≤ |(m : ℚ)| * 2 ^ (-1 : ℤ) :=
            mul_le_mul_of_nonneg_left hhalf (abs_nonneg _)
        _ < 2 ^ 53 * 2 ^ (-1 : ℤ) := mul_lt_mul_of_pos_right hm' (by norm_num)
        _ = 2 ^ 52 := by norm_num
    have hfloor : |R - N| ≤ |R| - 2 ^ 52 := by
      rcases le_total 0 R with h | h
      · rw [abs_of_nonneg h] at hR ⊢
        have := half_le_abs_sub (k := 2 ^ 52) hN
        rw [Int.cast_pow, Int.cast_ofNat] at this
        rwa [abs_of_nonneg (by linarith : 0 ≤ R - 2 ^ 52)] at this
      · rw [abs_of_nonpos h] at hR ⊢
        have := half_le_abs_sub (k := -2 ^ 52) hN
        rw [Int.cast_neg, Int.cast_pow, Int.cast_ofNat] at this
        rw [abs_of_nonpos (by linarith : R - -2 ^ 52 ≤ 0)] at this
        linarith
    linarith [abs_sub_abs_le_abs_sub R (m * 2 ^ (e - t))]

/-! ### Digits that are shifted out -/

/-- The two bits behind a mantissa say where the exact number lies between it and the next. -/
def Marks (em : ExtendedMantissa) (r : ℚ) : Prop :=
  match em.roundBit, em.stickyBit with
  | false, false => r = em.mantissa
  | false, true => em.mantissa < r ∧ r < em.mantissa + 1 / 2
  | true, false => r = em.mantissa + 1 / 2
  | true, true => em.mantissa + 1 / 2 < r ∧ r < em.mantissa + 1

theorem marks_exact (m : Nat) : Marks (.ofMantissaAndAccuracy m .exact) m := rfl

theorem Marks.shiftRightOne {em : ExtendedMantissa} {r : ℚ} (h : Marks em r) :
    Marks em.shiftRightOne (r / 2) := by
  obtain ⟨m, round, sticky⟩ := em
  have hm : (m : ℚ) = 2 * (m / 2 : Nat) + (m % 2 : Nat) := by
    exact_mod_cast (Nat.div_add_mod m 2).symm
  rcases Nat.mod_two_eq_zero_or_one m with hbit | hbit <;> cases round <;> cases sticky <;>
    simp only [Marks, ExtendedMantissa.shiftRightOne, hbit] at h ⊢ <;>
    simp [hbit] at hm ⊢ <;> first | linarith | (constructor <;> linarith)

theorem Marks.shiftRight {em : ExtendedMantissa} {r : ℚ} (h : Marks em r) (n : Nat) :
    Marks (em >>> n) (r / 2 ^ n) := by
  show Marks (n.repeat ExtendedMantissa.shiftRightOne em) _
  induction n with
  | zero => simpa [Nat.repeat] using h
  | succ n ih =>
    rw [Nat.repeat, pow_succ, ← div_div]
    exact ih.shiftRightOne

/-- The rounded mantissa is an integer nearest to the exact number. -/
theorem Marks.roundedMantissa {em : ExtendedMantissa} {r : ℚ} (h : Marks em r) :
    |r - em.roundedMantissa| ≤ 1 / 2 := by
  obtain ⟨m, round, sticky⟩ := em
  rw [abs_le]
  cases round <;> cases sticky <;>
    simp only [Marks, ExtendedMantissa.roundedMantissa, ExtendedMantissa.accuracy,
      Accuracy.roundToNearestEven] at h ⊢
  · simp [h]
  · constructor <;> linarith
  · have : ((m % 2 : Nat) : ℚ) = 0 ∨ ((m % 2 : Nat) : ℚ) = 1 := by
      rcases Nat.mod_two_eq_zero_or_one m with hbit | hbit <;> simp [hbit]
    push_cast
    rcases this with h0 | h0 <;> rw [h0] <;> constructor <;> linarith
  · push_cast
    constructor <;> linarith

theorem Marks.bounds {em : ExtendedMantissa} {r : ℚ} (h : Marks em r) :
    em.mantissa ≤ r ∧ r < em.mantissa + 1 := by
  obtain ⟨m, round, sticky⟩ := em
  cases round <;> cases sticky <;> simp only [Marks] at h ⊢ <;> constructor <;> linarith

/-! ### Rounding to the grid -/

theorem targetExponent_eq (m : Nat) (e : ℤ) :
    Format.binary64.targetExponent (totalExponent m e) = max ((m.log2 : ℤ) + e - 52) (-1074) := by
  simp only [Format.targetExponent, totalExponent, Format.mantissaBits, Format.minExponent]
  norm_num
  omega

/-- A mantissa that fits is not shifted. -/
theorem shift_small {m : Nat} {e : ℤ} (hm : m < 2 ^ 53) (he : -1074 ≤ e) :
    shiftToTargetExponent Format.binary64 m e .exact = (⟨m, false, false⟩, e) := by
  have hlog : m.log2 ≤ 52 := by
    rcases Nat.eq_zero_or_pos m with rfl | hpos
    · simp
    · exact Nat.le_of_lt_succ ((Nat.log2_lt (by omega)).2 hm)
  have hzero : (Format.binary64.targetExponent (totalExponent m e) - e).toNat = 0 := by
    rw [targetExponent_eq]
    omega
  simp only [shiftToTargetExponent, shiftToExponent, hzero]
  simp [HShiftRight.hShiftRight, Nat.repeat, ExtendedMantissa.ofMantissaAndAccuracy]

/-- A mantissa that is one digit too long is shifted by it. -/
theorem shift_carry {e : ℤ} (he : -1074 ≤ e) :
    shiftToTargetExponent Format.binary64 (2 ^ 53) e .exact = (⟨2 ^ 52, false, false⟩, e + 1) := by
  have hone : (Format.binary64.targetExponent (totalExponent (2 ^ 53) e) - e).toNat = 1 := by
    rw [targetExponent_eq, Nat.log2_two_pow]
    omega
  simp only [shiftToTargetExponent, shiftToExponent, hone]
  simp [HShiftRight.hShiftRight, Nat.repeat, ExtendedMantissa.ofMantissaAndAccuracy,
    ExtendedMantissa.shiftRightOne]

/-- A mantissa that is shifted to the target exponent has neither too many digits nor too few. -/
theorem shifted_bounds {m k : Nat} {e : ℤ} {r : ℚ} (hm : 0 < m) (hlow : m ≤ r) (hhigh : r < m + 1)
    (hk : max ((m.log2 : ℤ) + e - 52) (-1074) = e + k) :
    r / 2 ^ k < 2 ^ 53 ∧ (2 ^ 52 ≤ r / 2 ^ k ∨ e + k = -1074) := by
  have hpos : (0 : ℚ) < 2 ^ k := by positivity
  constructor
  · have hlt : m < 2 ^ (53 + k) :=
      Nat.lt_log2_self.trans_le (Nat.pow_le_pow_right (by norm_num) (by omega))
    have hcast : ((m + 1 : Nat) : ℚ) ≤ ((2 ^ (53 + k) : Nat) : ℚ) := by exact_mod_cast hlt
    rw [div_lt_iff₀ hpos, ← pow_add]
    push_cast at hcast
    linarith
  · rcases le_or_gt (e + k) (-1074) with hmin | hmin
    · exact Or.inr (by omega)
    · left
      have hlog : m.log2 = 52 + k := by omega
      have hcast : ((2 ^ (52 + k) : Nat) : ℚ) ≤ m := by
        rw [← hlog]
        exact_mod_cast Nat.log2_self_le hm.ne'
      rw [le_div_iff₀ hpos, ← pow_add]
      push_cast at hcast
      linarith

/-- The rounded mantissa has one digit too many at most, and enough unless the exponent is least. -/
theorem rounded_bounds {n : Nat} {r : ℚ} {t : ℤ} (hround : |r - n| ≤ 1 / 2) (hlt : r < 2 ^ 53)
    (hge : 2 ^ 52 ≤ r ∨ t = -1074) : n ≤ 2 ^ 53 ∧ (2 ^ 52 ≤ n ∨ t = -1074) := by
  obtain ⟨h₁, h₂⟩ := abs_le.1 hround
  constructor
  · have : (n : ℚ) < ((2 ^ 53 + 1 : Nat) : ℚ) := by push_cast; linarith
    exact Nat.lt_succ_iff.1 (by exact_mod_cast this)
  · refine hge.imp_left ?_
    intro hge
    have : ((2 ^ 52 : Nat) : ℚ) < ((n + 1 : Nat) : ℚ) := by push_cast; linarith
    exact Nat.lt_succ_iff.1 (by exact_mod_cast this)

/-- The rounded magnitude is nearest with either sign. -/
theorem nearest_signed (s : Sign) {n : Nat} {r : ℚ} {t : ℤ} (ht : -1074 ≤ t)
    (hround : |r - n| ≤ 1 / 2) (hlt : r < 2 ^ 53) (hge : 2 ^ 52 ≤ r ∨ t = -1074) :
    Nearest (s.apply 1 * r * 2 ^ t) (signed (isNegative s) n * 2 ^ t) := by
  have hn := (rounded_bounds hround hlt hge).1
  refine nearest_of_scaled (N := signed (isNegative s) n) ht ?_ ?_ ?_
  · cases s with
    | positive => simpa [Sign.apply, isNegative, signed] using hround
    | negative =>
        rw [abs_sub_comm] at hround
        have hswap :
            (Sign.negative.apply 1 : ℤ) * r - (signed (isNegative .negative) n : ℤ) = n - r := by
          simp [Sign.apply, isNegative, signed]
          ring
        rwa [hswap]
  · refine hge.imp_left fun hge => hge.trans ?_
    cases s <;> simp [Sign.apply, le_abs_self]
  · cases s <;> simp [isNegative, signed] <;> omega

/-- A form to which a number is rounded: a form of a double, apart from too great an exponent, and
nearest to the number. -/
structure RoundsTo (q : ℚ) (u : UnpackedFloat) : Prop where
  canonical : Canonical u
  finite : (readingOf u).IsFinite
  nearest : Nearest q (readingOf u).value

/-- **Rounding a mantissa of which `r` is the exact value.** -/
theorem roundWithAccuracy_spec (s : Sign) {m : Nat} {e : ℤ} {accuracy : Accuracy} {r : ℚ}
    (hm : 0 < m) (hmarks : Marks (.ofMantissaAndAccuracy m accuracy) r)
    (he : e ≤ max ((m.log2 : ℤ) + e - 52) (-1074)) :
    RoundsTo (s.apply 1 * r * 2 ^ e) (roundWithAccuracy Format.binary64 s m e accuracy) := by
  obtain ⟨k, hk⟩ : ∃ k : Nat, max ((m.log2 : ℤ) + e - 52) (-1074) = e + k :=
    ⟨_, (by omega : _ = e + ((max ((m.log2 : ℤ) + e - 52) (-1074) - e).toNat : ℤ))⟩
  have hmantissa : (ExtendedMantissa.ofMantissaAndAccuracy m accuracy).mantissa = m := by
    cases accuracy with
    | exact => rfl
    | inexact o => cases o <;> rfl
  have hshift : shiftToTargetExponent Format.binary64 m e accuracy =
      ((ExtendedMantissa.ofMantissaAndAccuracy m accuracy) >>> k, e + k) := by
    have hto : (Format.binary64.targetExponent (totalExponent m e) - e).toNat = k := by
      rw [targetExponent_eq]
      omega
    simp only [shiftToTargetExponent, shiftToExponent, hto]
  obtain ⟨hlow, hhigh⟩ := hmarks.bounds
  rw [hmantissa] at hlow hhigh
  obtain ⟨hlt, hge⟩ := shifted_bounds hm hlow hhigh hk
  have ht : -1074 ≤ e + k := by omega
  have hround := (hmarks.shiftRight k).roundedMantissa
  rw [roundWithAccuracy, hshift]
  dsimp only
  -- from here on only the rounded mantissa matters, and that it is nearest
  generalize ((ExtendedMantissa.ofMantissaAndAccuracy m accuracy) >>> k).roundedMantissa = n
    at hround ⊢
  obtain ⟨hn, hn'⟩ := rounded_bounds hround hlt hge
  have hnearest := nearest_signed s ht hround hlt hge
  have hscale : (s.apply 1 : ℚ) * (r / 2 ^ k) * 2 ^ (e + k) = s.apply 1 * r * 2 ^ e := by
    rw [zpow_add₀ (by norm_num), zpow_natCast]
    field_simp
  rw [hscale] at hnearest
  rcases hn.lt_or_eq with hsmall | rfl
  · simp only [shift_small hsmall ht]
    split
    · next hzero =>
      refine ⟨trivial, trivial, ?_⟩
      rw [hzero] at hnearest
      simpa [readingOf, Reading.value, signed] using hnearest
    · exact ⟨⟨hsmall, ht, hn'⟩, trivial, hnearest⟩
  · -- rounding carried into one digit more, which the exponent takes up
    simp only [shift_carry ht]
    rw [dif_neg (by norm_num)]
    refine ⟨⟨by norm_num, by omega, Or.inl le_rfl⟩, trivial, ?_⟩
    have hcarry : (signed (isNegative s) (2 ^ 52) : ℚ) * 2 ^ (e + k + 1) =
        signed (isNegative s) (2 ^ 53) * 2 ^ (e + k) := by
      rw [zpow_add_one₀ (by norm_num)]
      cases s <;> simp only [signed, isNegative] <;> push_cast <;> ring
    rw [← hcarry] at hnearest
    exact hnearest

theorem log2_shiftLeft {m : Nat} (hm : 0 < m) (k : Nat) : (m <<< k).log2 = m.log2 + k := by
  have hlow := Nat.log2_self_le hm.ne'
  have hhigh := Nat.lt_log2_self (n := m)
  have hpos : 0 < 2 ^ k := Nat.two_pow_pos k
  rw [Nat.shiftLeft_eq, Nat.log2_eq_iff (by positivity)]
  constructor
  · rw [pow_add]
    exact Nat.mul_le_mul_right _ hlow
  · rw [show m.log2 + k + 1 = (m.log2 + 1) + k by omega, pow_add]
    exact Nat.mul_lt_mul_of_pos_right hhigh hpos

/-- Decreasing the exponent keeps the number. -/
theorem shiftLeft_mul_zpow (m k : Nat) (e : ℤ) :
    ((m <<< k : Nat) : ℚ) * 2 ^ (e - k) = m * 2 ^ e := by
  rw [Nat.shiftLeft_eq, zpow_sub₀ (by norm_num), zpow_natCast]
  push_cast
  field_simp

/-- **Rounding a mantissa and an exponent.** -/
theorem round_spec (s : Sign) {m : Nat} (hm : 0 < m) (e : ℤ) :
    RoundsTo (s.apply 1 * m * 2 ^ e) (UnpackedFloat.round Format.binary64 s m e) := by
  rw [UnpackedFloat.round, decreaseExponent, targetExponent_eq]
  dsimp only
  generalize hk : (e - max ((m.log2 : ℤ) + e - 52) (-1074)).toNat = k
  have hspec := roundWithAccuracy_spec s (m := m <<< k) (e := e - k)
    (by rw [Nat.shiftLeft_eq]; positivity) (marks_exact _) (by rw [log2_shiftLeft hm]; omega)
  rwa [mul_assoc, shiftLeft_mul_zpow, ← mul_assoc] at hspec

/-- **Rounding an integer times a power of two.** -/
theorem normalize_spec (n e : ℤ) (zeroSign : Sign) :
    RoundsTo (n * 2 ^ e) (UnpackedFloat.normalize Format.binary64 n e zeroSign) := by
  rw [UnpackedFloat.normalize]
  split
  · next hcompare =>
    have hneg : n < 0 := Int.compare_eq_lt.1 hcompare
    have hspec := round_spec .negative (m := (-n).toNat) (by omega) e
    have hcast : (((-n).toNat : Nat) : ℚ) = -n := by
      have : (((-n).toNat : Nat) : ℤ) = -n := Int.toNat_of_nonneg (by omega)
      exact_mod_cast this
    rw [hcast] at hspec
    simpa [Sign.apply] using hspec
  · next hcompare =>
    have hzero : n = 0 := Int.compare_eq_eq.1 hcompare
    refine ⟨trivial, trivial, ?_⟩
    have hnearest := Nearest.of_representable (q := 0) ⟨0, 0, by norm_num, by norm_num, by simp⟩
    simpa [hzero, readingOf, Reading.value, signed] using hnearest
  · next hcompare =>
    have hpos : 0 < n := Int.compare_eq_gt.1 hcompare
    have hspec := round_spec .positive (m := n.toNat) (by omega) e
    have hcast : ((n.toNat : Nat) : ℚ) = n := by
      have : ((n.toNat : Nat) : ℤ) = n := Int.toNat_of_nonneg (by omega)
      exact_mod_cast this
    rw [hcast] at hspec
    simpa [Sign.apply] using hspec

end Strata.Number
