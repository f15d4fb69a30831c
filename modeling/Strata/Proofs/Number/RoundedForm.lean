/-
**Rounding is a function of the number.**

Which mantissa and exponent a number is rounded from makes no difference: the last place that a
double near it has is told from the number, and so is the integer in units of that place, a half
going to the even one.  So two computations with the same exact result give the same double, ties
included, however small the result is.

* `nearestEven`, `lastPlace`, `formOf` — the form of a double that a number is rounded to;
* `roundWithAccuracy_eq_formOf`, `divCore_eq_formOf` — **rounding gives that form**;
* `formOf_canonical`, `formOf_small` — numbers that are doubles, and numbers too small for one.
-/

import Strata.Proofs.Number.Division

set_option relaxedAutoImplicit false
set_option autoImplicit false

namespace Strata.Number

open Float.Model Float.Model.UnpackedFloat

/-! ### The form of a number -/

/-- The integer nearest to a number that is not negative, a half going to the even one. -/
def nearestEven (r : ℚ) : ℕ :=
  if r - ⌊r⌋₊ < 1 / 2 then ⌊r⌋₊ else if 1 / 2 < r - ⌊r⌋₊ then ⌊r⌋₊ + 1 else ⌊r⌋₊ + ⌊r⌋₊ % 2

/-- The exponent of the last place of the doubles near a positive number. -/
def lastPlace (q : ℚ) : ℤ := max (Int.log 2 q - 52) (-1074)

/-- A rounded mantissa, which may have one digit too many. -/
def carried (s : Sign) (n : ℕ) (t : ℤ) : UnpackedFloat :=
  if h : (shiftToTargetExponent Format.binary64 n t .exact).1.mantissa = 0 then .zero s
  else .finite s (shiftToTargetExponent Format.binary64 n t .exact).1.mantissa
    (shiftToTargetExponent Format.binary64 n t .exact).2 (Nat.pos_of_ne_zero h)

/-- The form that a positive number is rounded to. -/
def formOf (s : Sign) (q : ℚ) : UnpackedFloat :=
  carried s (nearestEven (q / 2 ^ lastPlace q)) (lastPlace q)

/-! ### Rounding a mantissa -/

theorem Marks.roundedMantissa_eq {em : ExtendedMantissa} {r : ℚ} (h : Marks em r) :
    em.roundedMantissa = nearestEven r := by
  obtain ⟨hlow, hhigh⟩ := h.bounds
  have hfloor : ⌊r⌋₊ = em.mantissa :=
    (Nat.floor_eq_iff ((Nat.cast_nonneg _).trans hlow)).2 ⟨hlow, hhigh⟩
  rw [nearestEven, hfloor]
  obtain ⟨m, round, sticky⟩ := em
  cases round <;> cases sticky <;>
    simp only [Marks, ExtendedMantissa.roundedMantissa, ExtendedMantissa.accuracy,
      Accuracy.roundToNearestEven] at h ⊢
  · rw [h, if_pos (by norm_num)]
  · rw [if_pos (by linarith)]
  · rw [h, if_neg (by norm_num), if_neg (by norm_num)]
  · rw [if_neg (by linarith), if_pos (by linarith)]

/-- Between two powers of two the logarithm is that of the lower. -/
theorem log_eq {q : ℚ} {k : ℤ} (hlow : 2 ^ k ≤ q) (hhigh : q < 2 ^ (k + 1)) : Int.log 2 q = k := by
  have hpos : 0 < q := (zpow_pos (by norm_num) k).trans_le hlow
  refine le_antisymm ?_ ?_
  · exact Int.lt_add_one_iff.1
      ((Int.lt_zpow_iff_log_lt (by norm_num) hpos).1 (by exact_mod_cast hhigh))
  · exact (Int.zpow_le_iff_le_log (by norm_num) hpos).1 (by exact_mod_cast hlow)

/-- What is less than the least double has the least exponent. -/
theorem lastPlace_of_lt {q : ℚ} (hpos : 0 < q) (h : q < 2 ^ (-1022 : ℤ)) : lastPlace q = -1074 := by
  have hlog := (Int.lt_zpow_iff_log_lt (by norm_num) hpos).1 (by exact_mod_cast h :
    q < ((2 : ℕ) : ℚ) ^ (-1022 : ℤ))
  rw [lastPlace]
  omega

/-- The last place of a number is told from any mantissa that is near it. -/
theorem lastPlace_of_marks {m : ℕ} {e : ℤ} {r : ℚ} (hr : 0 < r) (hlow : m ≤ r) (hhigh : r < m + 1)
    (he : e ≤ max ((m.log2 : ℤ) + e - 52) (-1074)) :
    lastPlace (r * 2 ^ e) = max ((m.log2 : ℤ) + e - 52) (-1074) := by
  have hpos : (0 : ℚ) < 2 ^ e := zpow_pos (by norm_num) e
  rcases Nat.eq_zero_or_pos m with rfl | hm
  · -- less than one unit of the last place of all
    have hexp : e ≤ -1074 := by
      rw [Nat.log2_zero] at he
      omega
    have hsmall : r * 2 ^ e < 2 ^ (-1022 : ℤ) := by
      have hone : r < 1 := by simpa using hhigh
      calc r * 2 ^ e < 1 * 2 ^ e := mul_lt_mul_of_pos_right hone hpos
        _ ≤ 2 ^ (-1022 : ℤ) := by
          rw [one_mul]
          exact zpow_le_zpow_right₀ (by norm_num) (by omega)
    rw [lastPlace_of_lt (mul_pos hr hpos) hsmall, Nat.log2_zero]
    omega
  · obtain ⟨hbelow, -⟩ := log2_bounds hm e
    have habove : r * 2 ^ e < 2 ^ ((m.log2 : ℤ) + e + 1) := by
      have hnext : ((m + 1 : ℕ) : ℚ) ≤ ((2 ^ (m.log2 + 1) : ℕ) : ℚ) := by
        exact_mod_cast Nat.lt_log2_self
      rw [show (m.log2 : ℤ) + e + 1 = ((m.log2 + 1 : ℕ) : ℤ) + e by push_cast; ring,
        zpow_add₀ (by norm_num), zpow_natCast]
      refine mul_lt_mul_of_pos_right ?_ hpos
      push_cast at hnext
      linarith
    rw [lastPlace, log_eq (hbelow.trans (mul_le_mul_of_nonneg_right hlow hpos.le)) habove]

/-- **What a mantissa is rounded to is told from the exact number.** -/
theorem roundWithAccuracy_eq_formOf (s : Sign) {m : ℕ} {e : ℤ} {accuracy : Accuracy} {r : ℚ}
    (hr : 0 < r) (hmarks : Marks (.ofMantissaAndAccuracy m accuracy) r)
    (he : e ≤ max ((m.log2 : ℤ) + e - 52) (-1074)) :
    roundWithAccuracy Format.binary64 s m e accuracy = formOf s (r * 2 ^ e) := by
  obtain ⟨k, hk⟩ : ∃ k : ℕ, max ((m.log2 : ℤ) + e - 52) (-1074) = e + k :=
    ⟨_, (by omega : _ = e + ((max ((m.log2 : ℤ) + e - 52) (-1074) - e).toNat : ℤ))⟩
  have hmantissa : (ExtendedMantissa.ofMantissaAndAccuracy m accuracy).mantissa = m := by
    cases accuracy with
    | exact => rfl
    | inexact o => cases o <;> rfl
  have hshift : shiftToTargetExponent Format.binary64 m e accuracy =
      ((ExtendedMantissa.ofMantissaAndAccuracy m accuracy) >>> k, e + k) := by
    have hto : (Format.binary64.targetExponent (totalExponent m e) - e).toNat = k := by
      rw [targetExponent_eq]
      omega
    simp only [shiftToTargetExponent, shiftToExponent, hto]
  obtain ⟨hlow, hhigh⟩ := hmarks.bounds
  rw [hmantissa] at hlow hhigh
  have hplace : lastPlace (r * 2 ^ e) = e + k := by rw [lastPlace_of_marks hr hlow hhigh he, hk]
  have hscale : r * 2 ^ e / 2 ^ (e + k) = r / 2 ^ k := by
    have hpos : (0 : ℚ) < 2 ^ e := zpow_pos (by norm_num) e
    rw [zpow_add₀ (by norm_num), zpow_natCast, mul_comm ((2 : ℚ) ^ e),
      mul_div_mul_right _ _ hpos.ne']
  rw [formOf, hplace, hscale, ← (hmarks.shiftRight k).roundedMantissa_eq, roundWithAccuracy, hshift]
  rfl

/-! ### Quotients of any size -/

/-- **The quotient of two mantissas**, however small. -/
theorem divCore_eq_formOf (s : Sign) {m n : ℕ} {e f : ℤ} (hm : 0 < m) (hn : 0 < n) :
    roundWithAccuracy Format.binary64 s (divCore Format.binary64 m e n f).1
        (divCore Format.binary64 m e n f).2.1 (divCore Format.binary64 m e n f).2.2 =
      formOf s ((m * 2 ^ e) / (n * 2 ^ f)) := by
  obtain ⟨k, hcore, hdigits⟩ := exists_divCore e f hm hn
  have hpos : 0 < ((m <<< k / n : ℕ) : ℚ) + (m <<< k % n : ℕ) / n := by
    have hexact : (0 : ℚ) < (m * 2 ^ e) / (n * 2 ^ f) := by positivity
    rw [← quotient_add_rest m k e f hn] at hexact
    exact pos_of_mul_pos_left hexact (zpow_pos (by norm_num) _).le
  have hexponent : e - f - k ≤ max (((m <<< k / n).log2 : ℤ) + (e - f - k) - 52) (-1074) := by
    rcases hdigits with hlong | ⟨hleast, -⟩
    · have : 52 ≤ (m <<< k / n).log2 := (Nat.le_log2 (by omega)).2 hlong
      omega
    · omega
  rw [hcore, ← quotient_add_rest m k e f hn]
  exact roundWithAccuracy_eq_formOf s hpos (marks_fraction _ (Nat.mod_lt _ hn)) hexponent

/-! ### Numbers that are doubles, and numbers too small for one -/

/-- A form of a double is what its number is rounded to. -/
theorem formOf_canonical (s : Sign) {m : ℕ} {e : ℤ} (hm : 0 < m)
    (h : Canonical (.finite s m e hm)) : formOf s (m * 2 ^ e) = .finite s m e hm := by
  obtain ⟨hsmall, he, hdigits⟩ := h
  have hlog : 2 ^ 52 ≤ m → m.log2 = 52 := fun hlarge => (Nat.log2_eq_iff hm.ne').2 ⟨hlarge, hsmall⟩
  have hlog' : m.log2 < 53 := (Nat.log2_lt hm.ne').2 hsmall
  have hround : nearestEven m = m := by simp [nearestEven]
  have hpos : (0 : ℚ) < 2 ^ e := zpow_pos (by norm_num) e
  have hplace : lastPlace (m * 2 ^ e) = e := by
    obtain ⟨hbelow, habove⟩ := log2_bounds hm e
    rw [lastPlace, log_eq hbelow habove]
    rcases hdigits with hlarge | hmin
    · have := hlog hlarge
      omega
    · omega
  rw [formOf, hplace, mul_div_cancel_right₀ _ hpos.ne', hround, carried]
  simp only [shift_small hsmall he]
  rw [dif_neg hm.ne']

/-- A number of less than half the least double is rounded to zero. -/
theorem formOf_small (s : Sign) {q : ℚ} (hpos : 0 < q) (h : q < 2 ^ (-1075 : ℤ)) :
    formOf s q = .zero s := by
  have hplace : lastPlace q = -1074 := by
    refine lastPlace_of_lt hpos (h.trans ?_)
    exact zpow_lt_zpow_right₀ (by norm_num) (by norm_num)
  have hhalf : q / 2 ^ (-1074 : ℤ) < 1 / 2 := by
    rw [div_lt_iff₀ (zpow_pos (by norm_num) _)]
    refine h.trans_le ?_
    rw [show (-1074 : ℤ) = -1075 + 1 by norm_num, zpow_add_one₀ (by norm_num)]
    linarith [zpow_pos (by norm_num : (0 : ℚ) < 2) (-1075)]
  have hfloor : ⌊q / 2 ^ (-1074 : ℤ)⌋₊ = 0 := Nat.floor_eq_zero.2 (by linarith)
  have hround : nearestEven (q / 2 ^ (-1074 : ℤ)) = 0 := by
    rw [nearestEven, hfloor, Nat.cast_zero, sub_zero, if_pos hhalf]
  rw [formOf, hplace, hround, carried]
  simp only [shift_small (m := 0) (e := -1074) (by norm_num) le_rfl]
  rfl

end Strata.Number
