/-
**How far points are from the fractions they stand for.**

Each digit of a point is taken from a product and a sum that both round, so it is off by two
half-units of a last place.  What a digit is off by counts as much as the digit itself, and the
digits that follow find what is left of it.  So a point is off by what a geometric series adds up
to, and by the rest that the last digit leaves, which is less than one.  Cutting to the last point
only brings it nearer.

* `digitError`, `abs_digitProduct_sub_le` — how far one digit is off;
* `abs_spelled_sub_le` — how far all digits are off, by induction on the digits still to be found;
* `abs_pointNumber_sub_le`, `abs_toNat_hashPoint_sub_le` — **the accuracy of points**;
* `hashPoint_monotone_accurate` — the order of points, their ends and their accuracy.
-/

import Strata.Proofs.Operator.HashPoint

set_option relaxedAutoImplicit false
set_option autoImplicit false

namespace Strata

open Number

variable {f r : Float}

/-! ### One digit -/

/-- What a product and a sum below 512 are rounded by at most. -/
def digitError : ℚ := 2 ^ (-46 : ℤ) + 2 ^ (-45 : ℤ)

theorem IsFraction.abs_share_sub_le (hf : IsFraction f) :
    |valueOf (f * Float.ofNat 255) - 255 * valueOf f| ≤ 2 ^ (-46 : ℤ) := by
  rw [abs_sub_comm, mul_comm 255]
  refine hf.rounds_share.nearest.abs_sub_le (by norm_num) ?_
  rw [abs_of_nonneg (by linarith [hf.nonneg])]
  norm_num
  linarith [hf.le_one]

/-- **One digit is off by two half-units of a last place.** -/
theorem abs_digitProduct_sub_le (hf : IsFraction f) (hr : IsRest r) :
    |valueOf (digitProduct f r) - (255 * valueOf f + 256 * valueOf r)| ≤ digitError := by
  have hsum : |valueOf (digitProduct f r) -
      (valueOf (f * Float.ofNat 255) + valueOf (r * Float.ofNat 256))| ≤ 2 ^ (-45 : ℤ) := by
    rw [abs_sub_comm]
    refine (rounds_digitProduct hf hr).nearest.abs_sub_le (by norm_num) ?_
    rw [abs_of_nonneg (sum_bounds hf hr).1, hr.rounds_scaled.2]
    norm_num
    linarith [hf.share_bounds.2, hr.lt_one]
  have hsplit : valueOf (digitProduct f r) - (255 * valueOf f + 256 * valueOf r) =
      (valueOf (f * Float.ofNat 255) - 255 * valueOf f) +
        (valueOf (digitProduct f r) -
          (valueOf (f * Float.ofNat 255) + valueOf (r * Float.ofNat 256))) := by
    rw [hr.rounds_scaled.2]
    ring
  rw [hsplit]
  exact (abs_add_le _ _).trans (add_le_add hf.abs_share_sub_le hsum)

/-! ### All digits -/

/-- **All digits.**  With the rest that the last one leaves, they are what the fraction and the rest
before the first one are worth, but for the errors of the digits.  The induction is on the digits
still to be found: what the first is off by counts `256 ^ count` times. -/
theorem abs_spelled_sub_le (hf : IsFraction f) (count : Nat) (hr : IsRest r) :
    ∃ rest : ℚ, 0 ≤ rest ∧ rest < 1 ∧
      255 * |(spelled (fractionDigits f count r) : ℚ) + rest -
        (256 ^ count * valueOf r + valueOf f * (256 ^ count - 1))| ≤
          digitError * (256 ^ count - 1) := by
  induction count generalizing r with
  | zero => exact ⟨valueOf r, hr.nonneg, hr.lt_one, by simp [fractionDigits]⟩
  | succ count ih =>
      obtain ⟨rest, hnonneg, hlt, hlater⟩ := ih (isRest_digitRest hf hr)
      refine ⟨rest, hnonneg, hlt, ?_⟩
      have hdigit := digit_add_rest hf hr
      have hsplit : (spelled (fractionDigits f (count + 1) r) : ℚ) + rest -
            (256 ^ (count + 1) * valueOf r + valueOf f * (256 ^ (count + 1) - 1)) =
          ((spelled (fractionDigits f count (digitRest f r)) : ℚ) + rest -
              (256 ^ count * valueOf (digitRest f r) + valueOf f * (256 ^ count - 1))) +
            256 ^ count *
              (valueOf (digitProduct f r) - (255 * valueOf f + 256 * valueOf r)) := by
        rw [fractionDigits_succ, spelled_cons, length_fractionDigits, ← hdigit]
        push_cast
        ring
      have hpos : (0 : ℚ) ≤ 256 ^ count := by positivity
      have hfirst : |256 ^ count *
            (valueOf (digitProduct f r) - (255 * valueOf f + 256 * valueOf r))| ≤
          256 ^ count * digitError := by
        rw [abs_mul, abs_of_nonneg hpos]
        exact mul_le_mul_of_nonneg_left (abs_digitProduct_sub_le hf hr) hpos
      rw [hsplit]
      calc 255 * |_ + _| ≤ 255 * (|_| + |_|) :=
            mul_le_mul_of_nonneg_left (abs_add_le _ _) (by norm_num)
        _ ≤ digitError * (256 ^ count - 1) + 255 * (256 ^ count * digitError) := by
            rw [mul_add]
            exact add_le_add hlater (mul_le_mul_of_nonneg_left hfirst (by norm_num))
        _ = digitError * (256 ^ (count + 1) - 1) := by ring

/-- The number that the digits of a fraction spell is short of its share of the last point by less
than one, but for the errors of the digits. -/
theorem abs_pointNumber_sub_le (hf : IsFraction f) (length : Nat) :
    |(pointNumber length f : ℚ) - valueOf f * (256 ^ length - 1)| ≤
      2 ^ (-52 : ℤ) * 256 ^ length + 1 := by
  obtain ⟨rest, hnonneg, hlt, hspelled⟩ := abs_spelled_sub_le hf length isRest_zero
  rw [valueOf_zero, mul_zero, zero_add, ← pointNumber] at hspelled
  have hpow : (1 : ℚ) ≤ 256 ^ length := one_le_pow₀ (by norm_num)
  -- the geometric series adds up to less than an eighth more than its last error
  have herror : digitError * (256 ^ length - 1) ≤ 255 * (2 ^ (-52 : ℤ) * 256 ^ length) := by
    norm_num [digitError]
    linarith
  rw [abs_le]
  obtain ⟨hlow, hhigh⟩ := abs_le.1 (le_of_mul_le_mul_left (hspelled.trans herror) (by norm_num))
  constructor <;> linarith

/-! ### Points -/

theorem ofNat_first (width : Nat) : Bytes.ofNat width 0 = List.replicate width 0x00 := by
  induction width with
  | zero => rfl
  | succ width ih => rw [Bytes.ofNat_succ, ih, Nat.zero_div, List.replicate_succ]; rfl

theorem toNat_hashPoint (hf : IsFraction f) (length : Nat) :
    Bytes.toNat (hashPoint length f) = min (pointNumber length f) (256 ^ length - 1) := by
  have hpos : 0 < 256 ^ length := Nat.pow_pos (by norm_num)
  rw [hashPoint_eq hf, Bytes.toNat_ofNat, Nat.mod_eq_of_lt (by omega)]

/-- **The accuracy of points.** -/
theorem abs_toNat_hashPoint_sub_le (hf : IsFraction f) (length : Nat) :
    |(Bytes.toNat (hashPoint length f) : ℚ) - valueOf f * (256 ^ length - 1)| ≤
      2 ^ (-52 : ℤ) * 256 ^ length + 1 := by
  have hpow : (1 : ℚ) ≤ 256 ^ length := one_le_pow₀ (by norm_num)
  have hlast : ((256 ^ length - 1 : Nat) : ℚ) = 256 ^ length - 1 := by
    rw [Nat.cast_sub (Nat.one_le_pow _ _ (by norm_num))]
    push_cast
    rfl
  have hshare : valueOf f * (256 ^ length - 1) ≤ 256 ^ length - 1 :=
    mul_le_of_le_one_left (by linarith) hf.le_one
  have hbound := abs_le.1 (abs_pointNumber_sub_le hf length)
  rw [toNat_hashPoint hf, Nat.cast_min, hlast, abs_le]
  constructor
  · rw [le_sub_iff_add_le, le_min_iff]
    constructor
    · linarith [hbound.1]
    · have : (0 : ℚ) ≤ 2 ^ (-52 : ℤ) * 256 ^ length := by positivity
      linarith
  · linarith [hbound.2, min_le_left (pointNumber length f : ℚ) (256 ^ length - 1)]

/-- **Points are in order and accurate.**  The points of fractions are in the order of the
fractions, from the point of either zero, which is all zeros, to that of one, which is all ones;
and the number a point spells is its fraction of the last point to within `2 ^ -52` of the space of
digests, and one. -/
theorem hashPoint_monotone_accurate (length : Nat) :
    (∀ f g : Float, Float.ofNat 0 ≤ f → f ≤ g → g ≤ Float.ofNat 1 →
      hashPoint length f ≤ hashPoint length g) ∧
    (∀ f : Float, (f == Float.ofNat 0) = true →
      hashPoint length f = List.replicate length 0x00) ∧
    (∀ f : Float, (f == Float.ofNat 1) = true →
      hashPoint length f = List.replicate length 0xff) ∧
    ∀ f : Float, Float.ofNat 0 ≤ f → f ≤ Float.ofNat 1 →
      |(Bytes.toNat (hashPoint length f) : ℚ) - valueOf f * (256 ^ length - 1)| ≤
        2 ^ (-52 : ℤ) * 256 ^ length + 1 := by
  refine ⟨?monotone, ?zero, ?one, ?accurate⟩
  case monotone =>
    intro f g hlow hle hhigh
    have hf := isFraction_iff.2 ⟨hlow, double_le_trans hle hhigh⟩
    have hg := isFraction_iff.2 ⟨double_le_trans hlow hle, hhigh⟩
    exact hashPoint_le hf hg ((le_iff_valueOf_le hf.finite hg.finite).1 hle) length
  case zero =>
    intro f hzero
    obtain ⟨hfinite, hvalue⟩ := valueOf_of_beq hzero isFinite_zero
    rw [valueOf_zero] at hvalue
    rw [hashPoint_of_whole (k := 0) ⟨hfinite, hvalue.ge, by rw [hvalue]; norm_num⟩
      (by rw [hvalue, Nat.cast_zero]), zero_mul, ofNat_first]
  case one =>
    intro f hone
    obtain ⟨hfinite, hvalue⟩ := valueOf_of_beq hone isFinite_one
    rw [valueOf_one] at hvalue
    rw [hashPoint_of_whole (k := 1) ⟨hfinite, by rw [hvalue]; norm_num, hvalue.le⟩
      (by rw [hvalue, Nat.cast_one]), one_mul, ofNat_last]
  case accurate =>
    intro f hlow hhigh
    exact abs_toNat_hashPoint_sub_le (isFraction_iff.2 ⟨hlow, hhigh⟩) length

/-- The order of the points of one half and of one, and how near the first is to its fraction. -/
theorem hashPoint_monotone_accurate_half :
    hashPoint 2 (Float.ofScientific 5 true 1) ≤ hashPoint 2 (Float.ofNat 1) ∧
      hashPoint 2 (Float.ofNat 0) = [0x00, 0x00] ∧ hashPoint 2 (Float.ofNat 1) = [0xff, 0xff] ∧
      |(Bytes.toNat (hashPoint 2 (Float.ofScientific 5 true 1)) : ℚ) -
        valueOf (Float.ofScientific 5 true 1) * (256 ^ 2 - 1)| ≤ 2 ^ (-52 : ℤ) * 256 ^ 2 + 1 := by
  obtain ⟨hmonotone, hzero, hone, haccurate⟩ := hashPoint_monotone_accurate 2
  exact ⟨hmonotone _ _ (by decide) (by decide) (by decide), hzero _ (by decide),
    hone _ (by decide), haccurate _ (by decide) (by decide)⟩

end Strata
