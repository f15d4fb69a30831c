/-
**Arithmetic of doubles.**

Every operation on finite doubles gives the double nearest to the exact result, as long as that is
not too great, and comparisons of doubles are comparisons of the numbers that they are.

* `Rounds` — a double nearest to a number;
* `rounds_sub`, `rounds_mul`, `rounds_ofInt`, `valueOf_neg` — the operations;
* `le_iff_valueOf_le` — comparison.
-/

import Strata.Proofs.Number.Rounding

set_option relaxedAutoImplicit false
set_option autoImplicit false

namespace Strata.Number

open Float.Model Float.Model.UnpackedFloat

/-- What is rounded to a finite double, if it is not greater. -/
@[irreducible] def safeBound : ℚ := 2 ^ (1023 : ℤ)

theorem representable_safeBound : Representable safeBound := by
  rw [safeBound]
  exact Representable.two_zpow (by norm_num)

/-- A finite double nearest to a number. -/
structure Rounds (q : ℚ) (x : Float) : Prop where
  finite : IsFinite x
  nearest : Nearest q (valueOf x)

theorem Rounds.valueOf_eq {q : ℚ} {x : Float} (h : Rounds q x) (hq : Representable q) :
    valueOf x = q :=
  h.nearest.eq hq

/-! ### Unpacked forms -/

theorem value_finite (s : Sign) (m : Nat) (e : ℤ) (hm : 0 < m) :
    (readingOf (.finite s m e hm)).value = s.apply m * 2 ^ e := by
  cases s <;> rfl

theorem value_zero (s : Sign) : (readingOf (.zero s)).value = 0 := by
  cases s <;> simp [readingOf, Reading.value, isNegative, signed]

theorem apply_neg (s : Sign) (n : ℤ) : (-s).apply n = -s.apply n := by
  cases s with
  | negative => exact (Int.neg_neg n).symm
  | positive => rfl

theorem apply_eq_mul (s : Sign) (n : ℤ) : s.apply n = s.apply 1 * n := by
  cases s with
  | negative => exact (Int.neg_one_mul n).symm
  | positive => exact (Int.one_mul n).symm

theorem abs_apply (s : Sign) (m : Nat) : |(s.apply m : ℚ)| = m := by
  cases s <;> simp [Sign.apply]

theorem apply_mul (s t : Sign) : (s * t).apply 1 = s.apply 1 * t.apply 1 := by
  cases s <;> cases t <;> rfl

theorem value_neg (u : UnpackedFloat) : (readingOf u.neg).value = -(readingOf u).value := by
  cases u with
  | notANumber => exact neg_zero.symm
  | infinity s => exact neg_zero.symm
  | zero s => rw [UnpackedFloat.neg, value_zero, value_zero, neg_zero]
  | finite s m e hm =>
      rw [UnpackedFloat.neg, value_finite, value_finite, apply_neg, Int.cast_neg, neg_mul]

theorem representable_value {u : UnpackedFloat} (h : Canonical u) :
    Representable (readingOf u).value := by
  have hzero : Representable 0 := ⟨0, 0, by norm_num, by norm_num, by simp⟩
  cases u with
  | notANumber => exact hzero
  | infinity s => exact hzero
  | zero s => rwa [value_zero]
  | finite s m e hm =>
      rw [value_finite]
      refine Representable.of_multiple ?_ h.2.1
      have hlt := h.1
      cases s <;> simp only [Sign.apply, abs_neg, Nat.abs_cast] <;> omega

/-- A form of a double is rounded to the number that it is. -/
theorem RoundsTo.of_canonical {u : UnpackedFloat} (h : Canonical u)
    (hfinite : (readingOf u).IsFinite) : RoundsTo (readingOf u).value u :=
  ⟨h, hfinite, Nearest.of_representable (representable_value h)⟩

theorem roundsTo_zero (s : Sign) : RoundsTo 0 (.zero s) := by
  have h := RoundsTo.of_canonical (u := .zero s) trivial trivial
  rwa [value_zero] at h

/-- Both mantissas at the lesser exponent. -/
theorem decreaseExponent_value (s : Sign) (m : Nat) {e f : ℤ} (h : f ≤ e) :
    (s.apply ((decreaseExponent m e f).1 : ℤ) : ℚ) * 2 ^ f = s.apply m * 2 ^ e := by
  have hvalue := shiftLeft_mul_zpow m (e - f).toNat e
  rw [show e - ((e - f).toNat : ℤ) = f by omega] at hvalue
  cases s <;> simp only [decreaseExponent, Sign.apply, Int.cast_neg, Int.cast_natCast, neg_mul,
    hvalue]

variable {u v : UnpackedFloat}

theorem sub_spec (hu : Canonical u) (hv : Canonical v) (hu' : (readingOf u).IsFinite)
    (hv' : (readingOf v).IsFinite) :
    RoundsTo ((readingOf u).value - (readingOf v).value)
      (UnpackedFloat.sub Format.binary64 u v) := by
  cases u with
  | notANumber => cases hu'
  | infinity s => cases hu'
  | zero s =>
      rw [value_zero, zero_sub]
      cases v with
      | notANumber => cases hv'
      | infinity t => cases hv'
      | zero t =>
          rw [value_zero, neg_zero, UnpackedFloat.sub]
          split <;> exact roundsTo_zero _
      | finite t n f hn =>
          rw [← value_neg]
          exact RoundsTo.of_canonical (u := .finite (-t) n f hn) hv trivial
  | finite s m e hm =>
      cases v with
      | notANumber => cases hv'
      | infinity t => cases hv'
      | zero t =>
          rw [value_zero, sub_zero]
          exact RoundsTo.of_canonical hu hu'
      | finite t n f hn =>
          -- at the lesser exponent the difference is that of the mantissas, and exact
          rw [value_finite, value_finite, ← decreaseExponent_value s m (min_le_left e f),
            ← decreaseExponent_value t n (min_le_right e f), ← sub_mul, ← Int.cast_sub]
          exact normalize_spec _ _ _

/-- A product of mantissas has digits enough to be rounded. -/
theorem mul_exponent_le {m n : Nat} {e f : ℤ} (hm : 0 < m) (hn : 0 < n)
    (he : 2 ^ 52 ≤ m ∨ e = -1074) (hf : 2 ^ 52 ≤ n ∨ f = -1074) :
    e + f ≤ max (((m * n).log2 : ℤ) + (e + f) - 52) (-1074) := by
  have hlog : 2 ^ 52 ≤ m * n → 52 ≤ (m * n).log2 :=
    fun h => (Nat.le_log2 (Nat.mul_pos hm hn).ne').2 h
  rcases he with he | he
  · have := hlog (he.trans (Nat.le_mul_of_pos_right m hn))
    omega
  · rcases hf with hf | hf
    · have := hlog (hf.trans (Nat.le_mul_of_pos_left n hm))
      omega
    · omega

theorem mul_spec (hu : Canonical u) (hv : Canonical v) (hu' : (readingOf u).IsFinite)
    (hv' : (readingOf v).IsFinite) :
    RoundsTo ((readingOf u).value * (readingOf v).value)
      (UnpackedFloat.mul Format.binary64 u v) := by
  cases u with
  | notANumber => cases hu'
  | infinity s => cases hu'
  | zero s =>
      rw [value_zero, zero_mul]
      cases v with
      | notANumber => cases hv'
      | infinity t => cases hv'
      | zero t => exact roundsTo_zero _
      | finite t n f hn => exact roundsTo_zero _
  | finite s m e hm =>
      cases v with
      | notANumber => cases hv'
      | infinity t => cases hv'
      | zero t =>
          rw [value_zero, mul_zero]
          exact roundsTo_zero _
      | finite t n f hn =>
          -- the product of the mantissas is exact, and rounded once
          have hspec := roundWithAccuracy_spec (s * t) (m := m * n) (e := e + f)
            (Nat.mul_pos hm hn) (marks_exact _) (mul_exponent_le hm hn hu.2.2 hv.2.2)
          have hvalue :
              (readingOf (.finite s m e hm)).value * (readingOf (.finite t n f hn)).value =
                ((s * t).apply 1 : ℚ) * (m * n : Nat) * 2 ^ (e + f) := by
            rw [value_finite, value_finite, apply_eq_mul s, apply_eq_mul t, apply_mul,
              zpow_add₀ (by norm_num)]
            push_cast
            ring
          rw [hvalue]
          exact hspec

/-! ### Doubles -/

theorem valueOf_eq (x : Float) : valueOf x = (readingOf x.toModel.unpack).value := by
  rw [valueOf, reading_eq]

theorem isFinite_unpack {x : Float} (h : IsFinite x) : (readingOf x.toModel.unpack).IsFinite := by
  rwa [IsFinite, reading_eq] at h

theorem canonical_toModel (x : Float) : Canonical x.toModel.unpack :=
  (canonical_unpack _).1

theorem representable_valueOf (x : Float) : Representable (valueOf x) := by
  rw [valueOf_eq]
  exact representable_value (canonical_toModel x)

/-- A number that is not too great is rounded to a form of a double. -/
theorem RoundsTo.fits {q : ℚ} (h : RoundsTo q u) (hq : |q| ≤ safeBound) : Fits u := by
  cases u with
  | finite s m e hm =>
      have hvalue : |(readingOf (.finite s m e hm)).value| ≤ safeBound :=
        h.nearest.abs_le_of representable_safeBound hq
      rw [value_finite, abs_mul, abs_of_pos (zpow_pos (by norm_num : (0 : ℚ) < 2) e)] at hvalue
      show e ≤ 971
      rcases h.canonical.2.2 with hlarge | hmin
      · have hm52 : (2 : ℚ) ^ 52 ≤ |(s.apply m : ℚ)| := by
          rw [abs_apply]
          exact_mod_cast hlarge
        have hexp : (2 : ℚ) ^ (52 + e) ≤ 2 ^ (1023 : ℤ) := by
          rw [zpow_add₀ (by norm_num), ← safeBound]
          refine le_trans ?_ hvalue
          exact mul_le_mul_of_nonneg_right hm52 (zpow_pos (by norm_num) e).le
        have := (zpow_le_zpow_iff_right₀ (by norm_num : (1 : ℚ) < 2)).1 hexp
        omega
      · omega
  | _ => trivial

/-- Packing what a number was rounded to. -/
theorem RoundsTo.rounds {q : ℚ} (h : RoundsTo q u) (hq : |q| ≤ safeBound) :
    Rounds q (Float.ofModel (Float.Model.pack u)) := by
  have hreading : reading (Float.ofModel (Float.Model.pack u)) = readingOf u := by
    rw [reading_eq]
    exact readingOf_unpack_pack h.canonical (h.fits hq)
  exact ⟨by rw [IsFinite, hreading]; exact h.finite, by rw [valueOf, hreading]; exact h.nearest⟩

variable {x y : Float}

theorem rounds_sub (hx : IsFinite x) (hy : IsFinite y) (h : |valueOf x - valueOf y| ≤ safeBound) :
    Rounds (valueOf x - valueOf y) (x - y) := by
  have hspec := sub_spec (canonical_toModel x) (canonical_toModel y) (isFinite_unpack hx)
    (isFinite_unpack hy)
  rw [← valueOf_eq, ← valueOf_eq] at hspec
  exact hspec.rounds h

theorem rounds_mul (hx : IsFinite x) (hy : IsFinite y) (h : |valueOf x * valueOf y| ≤ safeBound) :
    Rounds (valueOf x * valueOf y) (x * y) := by
  have hspec := mul_spec (canonical_toModel x) (canonical_toModel y) (isFinite_unpack hx)
    (isFinite_unpack hy)
  rw [← valueOf_eq, ← valueOf_eq] at hspec
  exact hspec.rounds h

theorem canonical_neg (h : Canonical u) : Canonical u.neg := by
  cases u <;> exact h

/-- Negation is exact. -/
theorem reading_neg (x : Float) : reading (-x) = readingOf x.toModel.unpack.neg := by
  have hform := canonical_unpack x.toModel.toBits.toBitVec
  have hfits : Fits x.toModel.unpack.neg := by
    revert hform
    show _ → Fits (UnpackedFloat.unpack Format.binary64 x.toModel.toBits.toBitVec).neg
    cases UnpackedFloat.unpack Format.binary64 x.toModel.toBits.toBitVec <;> exact And.right
  rw [reading_eq]
  exact readingOf_unpack_pack (canonical_neg hform.1) hfits

theorem valueOf_neg (x : Float) : valueOf (-x) = -valueOf x := by
  rw [valueOf, reading_neg, value_neg, ← valueOf_eq]

theorem isFinite_neg (h : IsFinite x) : IsFinite (-x) := by
  have hfinite := isFinite_unpack h
  rw [IsFinite, reading_neg]
  cases hu : x.toModel.unpack <;> simp_all [UnpackedFloat.neg, readingOf, Reading.IsFinite]

/-! ### Integers -/

theorem reading_one :
    reading Float.exactlyRepresentablePowersOfTen[0] = .finite false (2 ^ 52) (-52) := by
  decide

theorem two_pow_le_safeBound {k : Nat} (hk : k ≤ 1023) : (2 : ℚ) ^ k ≤ safeBound := by
  rw [safeBound, ← zpow_natCast]
  exact zpow_le_zpow_right₀ (by norm_num) (by exact_mod_cast hk)

theorem rounds_toFloat {n : Nat} (h : n < 2 ^ 53) : Rounds n n.toUInt64.toFloat := by
  have hspec := normalize_spec n 0 .positive
  rw [zpow_zero, mul_one, Int.cast_natCast] at hspec
  have hbound : |(n : ℚ)| ≤ safeBound := by
    have hcast : (n : ℚ) ≤ 2 ^ 53 := by exact_mod_cast h.le
    rw [Nat.abs_cast]
    exact hcast.trans (two_pow_le_safeBound (by norm_num))
  have htoNat : n.toUInt64.toNat = n := by
    rw [Nat.toUInt64, UInt64.toNat_ofNat']
    omega
  show Rounds n (Float.ofModel (.pack
    (UnpackedFloat.normalize Format.binary64 (n.toUInt64.toNat : ℤ) 0 .positive)))
  rw [htoNat]
  exact hspec.rounds hbound

/-- **The double of a natural number** is nearest to it. -/
theorem rounds_ofNat {n : Nat} (h : (n : ℚ) ≤ safeBound) : Rounds n (Float.ofNat n) := by
  have hbound : |(n : ℚ)| ≤ safeBound := by rwa [Nat.abs_cast]
  show Rounds n (Float.ofScientific n false 0)
  rw [Float.ofScientific]
  split
  · next hsmall =>
    -- up to `2 ^ 53` the number is exact, and is multiplied by one
    have hn := rounds_toFloat hsmall.1
    have hexact : valueOf n.toUInt64.toFloat = n := by
      refine hn.valueOf_eq ?_
      have := Representable.of_multiple (m := n) (e := 0)
        (by rw [Nat.abs_cast]; omega) (by norm_num)
      simpa using this
    have hone : valueOf Float.exactlyRepresentablePowersOfTen[0] = 1 := by
      rw [valueOf, reading_one]
      norm_num [Reading.value, signed]
    have hmul := rounds_mul (y := Float.exactlyRepresentablePowersOfTen[0]) hn.finite
      (by rw [IsFinite, reading_one]; trivial) (by rwa [hexact, hone, mul_one])
    rwa [hexact, hone, mul_one] at hmul
  · next hlarge =>
    -- a greater one is shifted up by 53 digits before it is rounded
    have hn : 2 ^ 53 ≤ n := by omega
    have hlog : ((n <<< 53) * 1).log2 = n.log2 + 53 := by
      rw [mul_one, log2_shiftLeft (by omega)]
    have hspec := roundWithAccuracy_spec .positive (m := (n <<< 53) * 1) (e := -53 + 0)
      (by rw [mul_one, Nat.shiftLeft_eq]; positivity) (marks_exact _) (by omega)
    have hvalue :
        ((Sign.positive.apply 1 : ℤ) : ℚ) * ((n <<< 53) * 1 : Nat) * 2 ^ (-53 + 0 : ℤ) = n := by
      have hshift := shiftLeft_mul_zpow n 53 0
      rw [zpow_zero, mul_one] at hshift
      rw [show Sign.positive.apply 1 = 1 from rfl, Int.cast_one, one_mul, mul_one]
      exact hshift
    rw [hvalue] at hspec
    have hform : UnpackedFloat.ofScientific Format.binary64 n (Int.ofNat 0) =
        roundWithAccuracy Format.binary64 .positive ((n <<< 53) * 1) (-53 + 0) .exact := by
      rw [UnpackedFloat.ofScientific, dif_neg (by omega), if_neg (by decide), if_neg ?_,
        if_pos (by decide)]
      · rfl
      · show ¬ (0 : ℤ) < -((2 ^ 11 : ℤ) + n.log2)
        omega
    simp only [Bool.false_eq_true, if_false]
    show Rounds n (Float.ofModel
      (.pack (UnpackedFloat.ofScientific Format.binary64 n (Int.ofNat 0))))
    rw [hform]
    exact hspec.rounds hbound

theorem representable_natCast {n : Nat} (h : n ≤ 2 ^ 53) : Representable n := by
  have hmultiple := Representable.of_multiple (m := n) (e := 0)
    (by rw [Nat.abs_cast]; omega) (by norm_num)
  simpa using hmultiple

/-- A natural number of 53 bits has a double of its own. -/
theorem rounds_small {n : Nat} (h : n ≤ 2 ^ 53) : Rounds n (Float.ofNat n) := by
  have hcast : (n : ℚ) ≤ 2 ^ 53 := by exact_mod_cast h
  exact rounds_ofNat (hcast.trans (two_pow_le_safeBound (by norm_num)))

theorem valueOf_ofNat {n : Nat} (h : n ≤ 2 ^ 53) : valueOf (Float.ofNat n) = n :=
  (rounds_small h).valueOf_eq (representable_natCast h)

/-- **The double of an integer** is nearest to it. -/
theorem rounds_ofInt {n : ℤ} (h : |(n : ℚ)| ≤ safeBound) : Rounds n (Float.ofInt n) := by
  cases n with
  | ofNat n => exact rounds_ofNat (by simpa using h)
  | negSucc n =>
      have hcast : ((Int.negSucc n : ℤ) : ℚ) = -((n + 1 : Nat) : ℚ) := by
        rw [Int.negSucc_eq]
        push_cast
        ring
      rw [hcast, abs_neg, Nat.abs_cast] at h
      rw [hcast]
      have hn := rounds_ofNat h
      show Rounds _ (-Float.ofNat (n + 1))
      exact ⟨isFinite_neg hn.finite, by rw [valueOf_neg]; exact hn.nearest.neg⟩

/-! ### Comparison -/

/-- Of two forms of doubles the one with the greater exponent is the greater number. -/
theorem scaled_lt_of_exponent_lt {m n : Nat} {e f : ℤ} (hm : m < 2 ^ 53) (he : -1074 ≤ e)
    (hn : 2 ^ 52 ≤ n ∨ f = -1074) (h : e < f) : (m : ℚ) * 2 ^ e < n * 2 ^ f := by
  have hn52 : (2 : ℚ) ^ 52 ≤ n := by exact_mod_cast hn.resolve_right (by omega)
  have hm53 : (m : ℚ) < 2 ^ 53 := by exact_mod_cast hm
  have hpow : (2 : ℚ) ^ (e + 1) ≤ 2 ^ f := zpow_le_zpow_right₀ (by norm_num) (by omega)
  calc (m : ℚ) * 2 ^ e < 2 ^ 53 * 2 ^ e :=
        mul_lt_mul_of_pos_right hm53 (zpow_pos (by norm_num) e)
    _ = 2 ^ 52 * 2 ^ (e + 1) := by
        rw [zpow_add_one₀ (by norm_num)]
        ring
    _ ≤ n * 2 ^ f := mul_le_mul hn52 hpow (zpow_pos (by norm_num) _).le (Nat.cast_nonneg n)

/-- Exponents are compared first, then mantissas. -/
theorem compare_scaled {m n : Nat} {e f : ℤ}
    (hm : m < 2 ^ 53 ∧ -1074 ≤ e ∧ (2 ^ 52 ≤ m ∨ e = -1074))
    (hn : n < 2 ^ 53 ∧ -1074 ≤ f ∧ (2 ^ 52 ≤ n ∨ f = -1074)) :
    (compare e f).then (compare m n) = compare ((m : ℚ) * 2 ^ e) (n * 2 ^ f) := by
  rcases lt_trichotomy e f with hlt | rfl | hgt
  · rw [compare_lt_iff_lt.2 hlt,
      compare_lt_iff_lt.2 (scaled_lt_of_exponent_lt hm.1 hm.2.1 hn.2.2 hlt)]
    rfl
  · have hpos : (0 : ℚ) < 2 ^ e := zpow_pos (by norm_num) e
    rw [compare_eq_iff_eq.2 rfl, Ordering.eq_then]
    rcases lt_trichotomy m n with hlt | rfl | hgt
    · rw [compare_lt_iff_lt.2 hlt, compare_lt_iff_lt.2]
      exact mul_lt_mul_of_pos_right (by exact_mod_cast hlt) hpos
    · rw [compare_eq_iff_eq.2 rfl, compare_eq_iff_eq.2 rfl]
    · rw [compare_gt_iff_gt.2 hgt, compare_gt_iff_gt.2]
      exact mul_lt_mul_of_pos_right (by exact_mod_cast hgt) hpos
  · rw [compare_gt_iff_gt.2 hgt,
      compare_gt_iff_gt.2 (scaled_lt_of_exponent_lt hn.1 hn.2.1 hm.2.2 hgt)]
    rfl

theorem compare_neg_neg (a b : ℚ) : compare (-a) (-b) = (compare a b).swap := by
  rcases lt_trichotomy a b with hlt | rfl | hgt
  · rw [compare_lt_iff_lt.2 hlt, compare_gt_iff_gt.2 (neg_lt_neg hlt)]
    rfl
  · rw [compare_eq_iff_eq.2 rfl, compare_eq_iff_eq.2 rfl]
    rfl
  · rw [compare_gt_iff_gt.2 hgt, compare_lt_iff_lt.2 (neg_lt_neg hgt)]
    rfl

/-- **Finite doubles are compared as the numbers that they are.** -/
theorem compare_spec (hu : Canonical u) (hv : Canonical v) (hu' : (readingOf u).IsFinite)
    (hv' : (readingOf v).IsFinite) :
    UnpackedFloat.compare u v = some (compare (readingOf u).value (readingOf v).value) := by
  have hpos : ∀ {m : Nat} {e : ℤ}, 0 < m → (0 : ℚ) < m * 2 ^ e := fun hm =>
    mul_pos (by exact_mod_cast hm) (zpow_pos (by norm_num) _)
  have hpositive : ∀ m : Nat, ((Sign.positive.apply m : ℤ) : ℚ) = m := fun m => rfl
  have hnegative : ∀ (m : Nat) (e : ℤ), ((Sign.negative.apply m : ℤ) : ℚ) * 2 ^ e = -(m * 2 ^ e) :=
    fun m e => by simp [Sign.apply]
  cases u with
  | notANumber => cases hu'
  | infinity s => cases hu'
  | zero s =>
      cases v with
      | notANumber => cases hv'
      | infinity t => cases hv'
      | zero t => rw [value_zero, value_zero, compare_eq_iff_eq.2 rfl]; rfl
      | finite t n f hn =>
          rw [value_zero, value_finite]
          cases t with
          | positive => rw [hpositive, compare_lt_iff_lt.2 (hpos hn)]; rfl
          | negative => rw [hnegative, compare_gt_iff_gt.2 (neg_lt_zero.2 (hpos hn))]; rfl
  | finite s m e hm =>
      cases v with
      | notANumber => cases hv'
      | infinity t => cases hv'
      | zero t =>
          rw [value_zero, value_finite]
          cases s with
          | positive => rw [hpositive, compare_gt_iff_gt.2 (hpos hm)]; rfl
          | negative => rw [hnegative, compare_lt_iff_lt.2 (neg_lt_zero.2 (hpos hm))]; rfl
      | finite t n f hn =>
          rw [value_finite, value_finite]
          cases s <;> cases t <;> simp only [hpositive, hnegative]
          · rw [compare_neg_neg, ← compare_scaled hu hv]
            rfl
          · rw [compare_lt_iff_lt.2 ((neg_lt_zero.2 (hpos hm)).trans (hpos hn))]
            rfl
          · rw [compare_gt_iff_gt.2 ((neg_lt_zero.2 (hpos hn)).trans (hpos hm))]
            rfl
          · rw [← compare_scaled hu hv]
            rfl

theorem le_iff_unpack_le : x ≤ y ↔ UnpackedFloat.le x.toModel.unpack y.toModel.unpack = true := by
  show decide (UnpackedFloat.le x.toModel.unpack y.toModel.unpack = true) = true ↔ _
  rw [decide_eq_true_iff]

theorem le_iff_valueOf_le (hx : IsFinite x) (hy : IsFinite y) : x ≤ y ↔ valueOf x ≤ valueOf y := by
  have hcompare := compare_spec (canonical_toModel x) (canonical_toModel y) (isFinite_unpack hx)
    (isFinite_unpack hy)
  rw [← valueOf_eq, ← valueOf_eq] at hcompare
  rw [le_iff_unpack_le, UnpackedFloat.le, hcompare, Option.any_some, Ordering.isLE_iff_ne_gt]
  exact compare_le_iff_le

/-- What lies between finite doubles is finite. -/
theorem isFinite_of_le_of_le {low high : Float} (hlow : IsFinite low) (hhigh : IsFinite high)
    (h₁ : low ≤ x) (h₂ : x ≤ high) : IsFinite x := by
  have hlow := isFinite_unpack hlow
  have hhigh := isFinite_unpack hhigh
  rw [le_iff_unpack_le] at h₁ h₂
  rw [IsFinite, reading_eq]
  cases hx : x.toModel.unpack with
  | finite s m e hm => trivial
  | zero s => trivial
  | notANumber =>
      rw [hx] at h₁
      cases hu : low.toModel.unpack <;> rw [hu] at h₁ <;> cases h₁
  | infinity s =>
      rw [hx] at h₁ h₂
      cases s with
      | negative =>
          cases hu : low.toModel.unpack <;> rw [hu] at h₁ hlow <;> first | cases h₁ | cases hlow
      | positive =>
          cases hu : high.toModel.unpack <;> rw [hu] at h₂ hhigh <;> first | cases h₂ | cases hhigh

end Strata.Number
