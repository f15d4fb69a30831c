/-
**The double of a decimal.**

A decimal is turned into a double in one rounding, whichever way is taken: through the exact powers
of ten if the decimal is short, through integers of any size if it is not, and through neither if it
is far too small.  So the double is told from the number alone, and decimals of one number give one
double.

* `Decimal.value` — the number of a decimal;
* `toFloat_eq` — **its double is the form that the number is rounded to**;
* `toFloat_congr` — decimals of one number;
* `toFloat_exactly`, `shortest_spec` — **the decimals that are written** give the double back.
-/

import Strata.Number.Decimal
import Strata.Proofs.Number.Order
import Strata.Proofs.Number.RoundedForm

set_option relaxedAutoImplicit false
set_option autoImplicit false

namespace Strata.Number

open Float.Model Float.Model.UnpackedFloat

/-- The number that a decimal is. -/
def Decimal.value (d : Decimal) : ℚ := d.digits * 10 ^ d.exponent

theorem Decimal.value_pos {d : Decimal} (h : 0 < d.digits) : 0 < d.value := by
  have : (0 : ℚ) < d.digits := by exact_mod_cast h
  rw [Decimal.value]
  positivity

/-- The double of a form. -/
def ofForm (u : UnpackedFloat) : Float := Float.ofModel (Float.Model.pack u)

/-! ### Products and quotients of positive doubles -/

variable {x y : Float}

theorem exists_form (h : 0 < valueOf x) :
    ∃ (m : ℕ) (e : ℤ) (hm : 0 < m), x.toModel.unpack = .finite .positive m e hm ∧
      (m : ℚ) * 2 ^ e = valueOf x := by
  rw [valueOf_eq] at h ⊢
  cases hx : x.toModel.unpack with
  | notANumber => rw [hx] at h; exact absurd h (lt_irrefl _)
  | infinity s => rw [hx] at h; exact absurd h (lt_irrefl _)
  | zero s => rw [hx, value_zero] at h; exact absurd h (lt_irrefl _)
  | finite s m e hm =>
      rw [hx, value_finite] at h
      cases s with
      | positive => exact ⟨m, e, hm, rfl, by rw [value_finite]; rfl⟩
      | negative =>
          have hpos : (0 : ℚ) < m * 2 ^ e := by positivity
          simp only [Sign.apply, Int.cast_neg, Int.cast_natCast, neg_mul] at h
          linarith

theorem isFinite_of_valueOf_ne_zero (h : valueOf x ≠ 0) : IsFinite x := by
  rw [valueOf] at h
  rw [IsFinite]
  cases hx : reading x with
  | finite negative m e => trivial
  | infinite negative => rw [hx] at h; exact absurd rfl h
  | notANumber => rw [hx] at h; exact absurd rfl h

theorem mul_eq_ofForm (hx : 0 < valueOf x) (hy : 0 < valueOf y) :
    x * y = ofForm (formOf .positive (valueOf x * valueOf y)) := by
  obtain ⟨m, e, hm, hxu, hxv⟩ := exists_form hx
  obtain ⟨n, f, hn, hyu, hyv⟩ := exists_form hy
  have hcx := canonical_toModel x
  have hcy := canonical_toModel y
  rw [hxu] at hcx
  rw [hyu] at hcy
  have hpos : (0 : ℚ) < (m * n : ℕ) := by exact_mod_cast Nat.mul_pos hm hn
  have hround := roundWithAccuracy_eq_formOf (.positive * .positive) (m := m * n) (e := e + f)
    hpos (marks_exact _) (mul_exponent_le hm hn hcx.2.2 hcy.2.2)
  have hvalue : ((m * n : ℕ) : ℚ) * 2 ^ (e + f) = valueOf x * valueOf y := by
    rw [← hxv, ← hyv, zpow_add₀ (by norm_num)]
    push_cast
    ring
  show ofForm (UnpackedFloat.mul Format.binary64 x.toModel.unpack y.toModel.unpack) = _
  rw [hxu, hyu, ← hvalue]
  exact congrArg ofForm hround

theorem div_eq_ofForm (hx : 0 < valueOf x) (hy : 0 < valueOf y) :
    x / y = ofForm (formOf .positive (valueOf x / valueOf y)) := by
  obtain ⟨m, e, hm, hxu, hxv⟩ := exists_form hx
  obtain ⟨n, f, hn, hyu, hyv⟩ := exists_form hy
  show ofForm (UnpackedFloat.div Format.binary64 x.toModel.unpack y.toModel.unpack) = _
  rw [hxu, hyu, ← hxv, ← hyv]
  have hround := divCore_eq_formOf (.positive / .positive) (e := e) (f := f) hm hn
  exact congrArg ofForm hround

/-! ### Both ways to a double -/

/-- The number is so small that it is not computed. -/
theorem scientific_lt {m : ℕ} {e : ℤ} (h : e < -((2 ^ 11 : ℤ) + m.log2)) :
    (m : ℚ) * 10 ^ e < 2 ^ (-1075 : ℤ) := by
  have hm : (m : ℚ) < 2 ^ ((m.log2 : ℤ) + 1) := by
    have : m < 2 ^ (m.log2 + 1) := Nat.lt_log2_self
    exact_mod_cast this
  have hten : (10 : ℚ) ^ e ≤ 2 ^ e := by
    have hten : (10 : ℚ) ^ e = ((10 ^ (-e).toNat : ℕ) : ℚ)⁻¹ := natCast_zpow_of_neg 10 (by omega)
    have htwo : (2 : ℚ) ^ e = ((2 ^ (-e).toNat : ℕ) : ℚ)⁻¹ := natCast_zpow_of_neg 2 (by omega)
    rw [hten, htwo]
    refine inv_anti₀ (by positivity) ?_
    exact_mod_cast Nat.pow_le_pow_left (by norm_num : 2 ≤ 10) _
  calc (m : ℚ) * 10 ^ e < 2 ^ ((m.log2 : ℤ) + 1) * 10 ^ e :=
        mul_lt_mul_of_pos_right hm (zpow_pos (by norm_num) e)
    _ ≤ 2 ^ ((m.log2 : ℤ) + 1) * 2 ^ e := by
        exact mul_le_mul_of_nonneg_left hten (zpow_pos (by norm_num) _).le
    _ = 2 ^ ((m.log2 : ℤ) + 1 + e) := (zpow_add₀ (by norm_num) _ _).symm
    _ ≤ 2 ^ (-1075 : ℤ) := zpow_le_zpow_right₀ (by norm_num) (by omega)

/-- **The way through integers of any size.** -/
theorem ofScientific_eq_formOf {m : ℕ} {e : ℤ} (hm : 0 < m) (he : e ≤ 2 ^ 11) :
    UnpackedFloat.ofScientific Format.binary64 m e = formOf .positive (m * 10 ^ e) := by
  have hmq : (0 : ℚ) < m := by exact_mod_cast hm
  have hlarge : ¬ e > 2 ^ Format.binary64.exponentBits := by
    rw [show Format.binary64.exponentBits = 11 from rfl]
    omega
  rw [UnpackedFloat.ofScientific, dif_neg hm.ne', if_neg hlarge]
  by_cases hsmall : e < -((2 ^ Format.binary64.exponentBits : ℤ) + m.log2)
  · rw [if_pos hsmall, formOf_small _ (by positivity) (scientific_lt hsmall)]
  · rw [if_neg hsmall]
    by_cases hnonneg : 0 ≤ e
    · -- the mantissa is shifted up by 53 digits before it is rounded
      rw [if_pos hnonneg]
      have hpower : 0 < 10 ^ e.toNat := Nat.pow_pos (by norm_num)
      have hlog : 53 ≤ ((m <<< 53) * 10 ^ e.toNat).log2 := by
        refine (Nat.le_log2 ?_).2 ?_
        · rw [Nat.shiftLeft_eq]
          positivity
        · rw [Nat.shiftLeft_eq]
          exact (Nat.le_mul_of_pos_left _ hm).trans (Nat.le_mul_of_pos_right _ hpower)
      have hpos : (0 : ℚ) < ((m <<< 53) * 10 ^ e.toNat : ℕ) := by
        rw [Nat.shiftLeft_eq]
        positivity
      have hround := roundWithAccuracy_eq_formOf (.positive * .positive)
        (m := (m <<< 53) * 10 ^ e.toNat) (e := -53 + 0) hpos (marks_exact _) (by omega)
      have hvalue : (((m <<< 53) * 10 ^ e.toNat : ℕ) : ℚ) * 2 ^ (-53 + 0 : ℤ) = m * 10 ^ e := by
        have hshift := shiftLeft_mul_zpow m 53 0
        rw [zpow_zero, mul_one, show (0 : ℤ) - (53 : ℕ) = -53 + 0 by norm_num] at hshift
        have hten : (10 : ℚ) ^ e = ((10 ^ e.toNat : ℕ) : ℚ) := natCast_zpow_of_nonneg 10 hnonneg
        rw [hten, Nat.cast_mul, mul_right_comm, hshift]
      rw [hvalue] at hround
      exact hround
    · rw [if_neg hnonneg]
      have hpower : 0 < 10 ^ (-e).toNat := Nat.pow_pos (by norm_num)
      have hround := divCore_eq_formOf (.positive / .positive) (e := 0) (f := 0) hm hpower
      have hvalue : ((m : ℚ) * 2 ^ (0 : ℤ)) / ((10 ^ (-e).toNat : ℕ) * 2 ^ (0 : ℤ)) =
          m * 10 ^ e := by
        have hten : (10 : ℚ) ^ e = ((10 ^ (-e).toNat : ℕ) : ℚ)⁻¹ := natCast_zpow_of_neg 10 hnonneg
        rw [zpow_zero, mul_one, mul_one, hten, div_eq_mul_inv]
      rw [hvalue] at hround
      exact hround

/-- A positive number is read that is `n` in units of `2 ^ (-52)`. -/
def Reading.isScaled (n : ℕ) : Reading → Bool
  | .finite false m e => decide (-52 ≤ e) && m * 2 ^ (e + 52).toNat == n
  | _ => false

theorem value_of_isScaled {reading : Reading} {n : ℕ} (h : reading.isScaled n = true) :
    reading.value = n * 2 ^ (-52 : ℤ) := by
  match reading, h with
  | .finite false m e, h =>
      rw [Reading.isScaled, Bool.and_eq_true, decide_eq_true_iff, beq_iff_eq] at h
      obtain ⟨he, rfl⟩ := h
      have hpower : (2 : ℚ) ^ e = ((2 ^ (e + 52).toNat : ℕ) : ℚ) * 2 ^ (-52 : ℤ) := by
        rw [← natCast_zpow_of_nonneg 2 (by omega), Nat.cast_ofNat, ← zpow_add₀ (by norm_num),
          add_neg_cancel_right]
      rw [Reading.value, hpower, Nat.cast_mul, mul_assoc]
      rfl

/-- The powers of ten that are used are exact. -/
theorem isScaled_powerOfTen : ∀ e : Fin Float.exactlyRepresentablePowersOfTen.size,
    (reading (Float.exactlyRepresentablePowersOfTen[e])).isScaled (10 ^ e.val * 2 ^ 52) = true := by
  decide

theorem valueOf_powerOfTen {e : ℕ} (he : e < Float.exactlyRepresentablePowersOfTen.size) :
    valueOf (Float.exactlyRepresentablePowersOfTen[e]) = 10 ^ e := by
  refine (value_of_isScaled (isScaled_powerOfTen ⟨e, he⟩)).trans ?_
  push_cast
  rw [mul_assoc]
  norm_num

theorem exponent_sign (d : Decimal) :
    (if decide (d.exponent < 0) = true then Int.negOfNat d.exponent.natAbs
      else Int.ofNat d.exponent.natAbs) = d.exponent := by
  split
  · next hneg =>
    have := of_decide_eq_true hneg
    rw [Int.negOfNat_eq, Int.ofNat_eq_natCast]
    omega
  · next hneg =>
    have : ¬ d.exponent < 0 := fun h => hneg (decide_eq_true h)
    rw [Int.ofNat_eq_natCast]
    omega

/-- **The double of a decimal** is the form that its number is rounded to. -/
theorem toFloat_eq {d : Decimal} (hd : 0 < d.digits) (he : d.exponent ≤ 2 ^ 11) :
    d.toFloat = ofForm (formOf .positive d.value) := by
  rw [Decimal.toFloat, Float.ofScientific, Decimal.value]
  split
  · next hshort =>
    have hn := rounds_toFloat hshort.1
    have hexact : valueOf d.digits.toUInt64.toFloat = d.digits :=
      hn.valueOf_eq (representable_natCast hshort.1.le)
    have hdigits : 0 < valueOf d.digits.toUInt64.toFloat := by
      rw [hexact]
      exact_mod_cast hd
    have hsize : d.exponent.natAbs < Float.exactlyRepresentablePowersOfTen.size := by
      rw [show Float.exactlyRepresentablePowersOfTen.size = 23 from rfl]
      omega
    have hpower := valueOf_powerOfTen hsize
    have hpos : 0 < valueOf (Float.exactlyRepresentablePowersOfTen[d.exponent.natAbs]) := by
      rw [hpower]
      positivity
    dsimp only
    split
    · next hneg =>
      rw [div_eq_ofForm hdigits hpos, hexact, hpower]
      have hten : (10 : ℚ) ^ d.exponent = (10 ^ d.exponent.natAbs)⁻¹ := by
        rw [← zpow_natCast, ← zpow_neg]
        congr 1
        have := of_decide_eq_true hneg
        omega
      rw [hten, div_eq_mul_inv]
    · next hneg =>
      rw [mul_eq_ofForm hdigits hpos, hexact, hpower]
      have hten : (10 : ℚ) ^ d.exponent = 10 ^ d.exponent.natAbs := by
        rw [← zpow_natCast]
        congr 1
        have : ¬ d.exponent < 0 := fun h => hneg (decide_eq_true h)
        omega
      rw [hten]
  · dsimp only
    rw [exponent_sign, ← ofScientific_eq_formOf hd he]
    rfl

/-- **Decimals of one number** give one double. -/
theorem toFloat_congr {d d' : Decimal} (hd : 0 < d.digits) (he : d.exponent ≤ 2 ^ 11)
    (hd' : 0 < d'.digits) (he' : d'.exponent ≤ 2 ^ 11) (h : d.value = d'.value) :
    d.toFloat = d'.toFloat := by
  rw [toFloat_eq hd he, toFloat_eq hd' he', h]

/-! ### Decimals of no digits, and decimals that are too great -/

theorem reading_zeros :
    IsFinite (ofForm (.zero .positive)) ∧ valueOf (ofForm (.zero .positive)) = 0 := by
  have hreading : reading (ofForm (.zero .positive)) = .finite false 0 (-1074) := by decide
  rw [IsFinite, valueOf, hreading]
  exact ⟨trivial, by simp [Reading.value, signed]⟩

theorem reading_infinity : reading (ofForm (.infinity .positive)) = .infinite false := by decide

theorem valueOf_toFloat_zero {d : Decimal} (h : d.digits = 0) : valueOf d.toFloat = 0 := by
  rw [Decimal.toFloat, Float.ofScientific]
  split
  · next hshort =>
    have hn := rounds_toFloat hshort.1
    have hzero : valueOf d.digits.toUInt64.toFloat = 0 := by
      rw [hn.valueOf_eq (representable_natCast hshort.1.le), h, Nat.cast_zero]
    have hsize : d.exponent.natAbs < Float.exactlyRepresentablePowersOfTen.size := by
      rw [show Float.exactlyRepresentablePowersOfTen.size = 23 from rfl]
      omega
    have hpower := valueOf_powerOfTen hsize
    have hne : valueOf (Float.exactlyRepresentablePowersOfTen[d.exponent.natAbs]) ≠ 0 := by
      rw [hpower]
      positivity
    have hfinite := isFinite_of_valueOf_ne_zero hne
    have hsafe : |(0 : ℚ)| ≤ safeBound := by
      rw [abs_zero]
      exact (by norm_num : (0 : ℚ) ≤ 2 ^ 0).trans (two_pow_le_safeBound (by norm_num))
    dsimp only
    split
    · have hquotient := rounds_div hn.finite hfinite hne (Or.inl hzero)
      rw [hzero, zero_div] at hquotient
      exact (hquotient hsafe).valueOf_eq Representable.zero
    · have hproduct := rounds_mul hn.finite hfinite
      rw [hzero, zero_mul] at hproduct
      exact (hproduct hsafe).valueOf_eq Representable.zero
  · dsimp only
    rw [exponent_sign, h]
    show valueOf (ofForm (UnpackedFloat.ofScientific Format.binary64 0 d.exponent)) = 0
    rw [UnpackedFloat.ofScientific, dif_pos rfl]
    exact reading_zeros.2

/-- A decimal that is too great is no number. -/
theorem not_isFinite_toFloat {d : Decimal} (hd : 0 < d.digits) (he : 2 ^ 11 < d.exponent) :
    ¬ IsFinite d.toFloat := by
  rw [Decimal.toFloat, Float.ofScientific, dif_neg (by omega)]
  dsimp only
  rw [exponent_sign]
  have hform : UnpackedFloat.ofScientific Format.binary64 d.digits d.exponent =
      .infinity .positive := by
    rw [UnpackedFloat.ofScientific, dif_neg hd.ne', if_pos]
    exact he
  show ¬ IsFinite (ofForm (UnpackedFloat.ofScientific Format.binary64 d.digits d.exponent))
  rw [hform, IsFinite, reading_infinity]
  exact id

/-! ### The decimals of a double -/

theorem value_exactly (m : ℕ) (e : ℤ) : (exactly m e).value = m * 2 ^ e := by
  rw [exactly]
  split
  · next he =>
    have htwo : (2 : ℚ) ^ e = ((2 ^ e.toNat : ℕ) : ℚ) := natCast_zpow_of_nonneg 2 he
    rw [Decimal.value, htwo, zpow_zero, mul_one, Nat.cast_mul]
  · next he =>
    have hfive : (5 : ℚ) ^ (-e) = ((5 ^ (-e).toNat : ℕ) : ℚ) :=
      natCast_zpow_of_nonneg 5 (by omega)
    rw [Decimal.value, Nat.cast_mul, ← hfive, mul_assoc, show (10 : ℚ) = 5 * 2 by norm_num,
      mul_zpow, ← mul_assoc ((5 : ℚ) ^ (-e)), ← zpow_add₀ (by norm_num), neg_add_cancel, zpow_zero,
      one_mul]

theorem digits_exactly_pos {m : ℕ} (hm : 0 < m) (e : ℤ) : 0 < (exactly m e).digits := by
  rw [exactly]
  split <;> positivity

theorem exponent_exactly_le (m : ℕ) (e : ℤ) : (exactly m e).exponent ≤ 0 := by
  rw [exactly]
  split
  · exact le_rfl
  · next he => exact (not_le.1 he).le

section Form

variable {m : ℕ} {e : ℤ} {hm : 0 < m}

/-- **The decimal that equals a double** gives it back. -/
theorem toFloat_exactly (hcanonical : Canonical (.finite .positive m e hm)) :
    (exactly m e).toFloat = ofForm (.finite .positive m e hm) := by
  rw [toFloat_eq (digits_exactly_pos hm e) ((exponent_exactly_le m e).trans (by norm_num)),
    value_exactly, formOf_canonical .positive hm hcanonical]

theorem reading_ofForm (hcanonical : Canonical (.finite .positive m e hm))
    (hfits : Fits (.finite .positive m e hm)) :
    reading (ofForm (.finite .positive m e hm)) = .finite false m e := by
  rw [reading_eq]
  exact readingOf_unpack_pack hcanonical hfits

/-- **The shortest decimal** gives the double back, too. -/
theorem shortest_spec (hcanonical : Canonical (.finite .positive m e hm))
    (hfits : Fits (.finite .positive m e hm)) :
    0 < (shortest m e).digits ∧ (shortest m e).exponent ≤ 2 ^ 11 ∧
      (shortest m e).toFloat = ofForm (.finite .positive m e hm) := by
  have hreading := reading_ofForm hcanonical hfits
  have hfinite : IsFinite (ofForm (.finite .positive m e hm)) := by
    rw [IsFinite, hreading]
    trivial
  have hvalue : valueOf (ofForm (.finite .positive m e hm)) ≠ 0 := by
    rw [valueOf, hreading]
    show (m : ℚ) * 2 ^ e ≠ 0
    positivity
  -- whatever is found was found to give back the double of the exact decimal
  have hbeq : ((shortest m e).toFloat == (exactly m e).toFloat) = true := by
    rw [shortest]
    cases hfound : (List.range 17).findSome? _ with
    | none =>
        rw [Option.getD_none, toFloat_exactly hcanonical]
        exact (beq_iff_valueOf_eq hfinite hfinite).2 rfl
    | some d =>
        obtain ⟨n, -, hn⟩ := List.exists_of_findSome?_eq_some hfound
        have hreads := List.find?_some hn
        exact hreads
  rw [toFloat_exactly hcanonical] at hbeq
  obtain ⟨hfinite', hvalue'⟩ := valueOf_of_beq hbeq hfinite
  have hdigits : 0 < (shortest m e).digits := by
    rw [Nat.pos_iff_ne_zero]
    intro hzero
    rw [valueOf_toFloat_zero hzero] at hvalue'
    exact hvalue hvalue'.symm
  refine ⟨hdigits, ?_, eq_of_valueOf_eq hfinite' hfinite hvalue' (hvalue' ▸ hvalue)⟩
  by_contra hgreat
  exact not_isFinite_toFloat hdigits (not_le.1 hgreat) hfinite'

end Form

end Strata.Number
