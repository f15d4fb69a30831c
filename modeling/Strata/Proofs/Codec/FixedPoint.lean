/-
**The two words of a number.**

The encoding of a number begins with the word of its integer part, which for a double is followed by
the word of its fraction.  The integer part is the floor, cut to 64 bits.  Above it remains the
fractional part, rounded to a double; scaling it by `2 ^ 63` is exact, so the second word is that
double in units of `2 ^ -63`, rounded to the nearest unit and cut to 63 bits.

* `InRange`, `inRange_iff` — which doubles are encoded so;
* `toNat_biased` — the word of an integer;
* `toInt_wholePart`, `toInt_fractionPart` — **the words of a double**.
-/

import Strata.Codec.FixedPoint
import Strata.Proofs.Bytes
import Strata.Proofs.Number.Parts

set_option relaxedAutoImplicit false
set_option autoImplicit false

namespace Strata.Codec.FixedPoint

open Number

/-! ### Words of integers -/

/-- Turning the highest bit over moves by half of all words. -/
theorem xor_two_pow_63 {n : Nat} (h : n < 2 ^ 64) : n ^^^ 2 ^ 63 = (n + 2 ^ 63) % 2 ^ 64 := by
  have hhigh : (n ^^^ 2 ^ 63) / 2 ^ 63 = n / 2 ^ 63 ^^^ 1 := Nat.xor_div_two_pow
  have hlow : (n ^^^ 2 ^ 63) % 2 ^ 63 = n % 2 ^ 63 ^^^ 0 := Nat.xor_mod_two_pow
  rw [Nat.xor_zero] at hlow
  rcases (by omega : n / 2 ^ 63 = 0 ∨ n / 2 ^ 63 = 1) with hn | hn
  · rw [hn, show 0 ^^^ 1 = 1 from rfl] at hhigh
    omega
  · rw [hn, show 1 ^^^ 1 = 0 from rfl] at hhigh
    omega

/-- **The word of an integer** is the integer moved up by `2 ^ 63`. -/
theorem toNat_biased (n : Int64) : ((biased n).toNat : ℤ) = n.toInt + 2 ^ 63 := by
  have hlt : n.toUInt64.toNat < 2 ^ 64 := n.toUInt64.toNat_lt
  have hword : (biased n).toNat = (n.toUInt64.toNat + 2 ^ 63) % 2 ^ 64 := xor_two_pow_63 hlt
  have hint : n.toInt = if 2 * n.toUInt64.toNat < 2 ^ 64 then (n.toUInt64.toNat : ℤ)
      else (n.toUInt64.toNat : ℤ) - 2 ^ 64 := BitVec.toInt_eq_toNat_cond n.toBitVec
  rw [hword, hint]
  split <;> omega

theorem biased_lt_biased_iff (a b : Int64) :
    Bytes.ofWord (biased a) < Bytes.ofWord (biased b) ↔ a.toInt < b.toInt := by
  have ha := toNat_biased a
  have hb := toNat_biased b
  rw [Bytes.ofWord_lt_ofWord_iff]
  omega

theorem biased_inj {a b : Int64} :
    Bytes.ofWord (biased a) = Bytes.ofWord (biased b) ↔ a.toInt = b.toInt := by
  have ha := toNat_biased a
  have hb := toNat_biased b
  rw [Bytes.ofWord_inj]
  omega

/-! ### Doubles in range -/

/-- A number of 64 bits with a sign, or the one just above them. -/
structure InRange (x : Float) : Prop where
  finite : IsFinite x
  low : -2 ^ 63 ≤ valueOf x
  high : valueOf x ≤ 2 ^ 63

theorem reading_fractionScale : reading fractionScale = .finite false (2 ^ 52) 11 := by decide

theorem isFinite_fractionScale : IsFinite fractionScale := by
  rw [IsFinite, reading_fractionScale]
  trivial

theorem valueOf_fractionScale : valueOf fractionScale = 2 ^ 63 := by
  rw [valueOf, reading_fractionScale]
  norm_num [Reading.value, signed]

/-- **Whether a double is in range** is decided by comparing doubles. -/
theorem inRange_iff {x : Float} : inRange x = true ↔ InRange x := by
  have hneg := isFinite_neg isFinite_fractionScale
  rw [inRange, Bool.and_eq_true, decide_eq_true_iff, decide_eq_true_iff]
  constructor
  · rintro ⟨h₁, h₂⟩
    have hx := isFinite_of_le_of_le hneg isFinite_fractionScale h₁ h₂
    rw [le_iff_valueOf_le hneg hx, valueOf_neg, valueOf_fractionScale] at h₁
    rw [le_iff_valueOf_le hx isFinite_fractionScale, valueOf_fractionScale] at h₂
    exact ⟨hx, h₁, h₂⟩
  · rintro ⟨hx, hlow, hhigh⟩
    rw [le_iff_valueOf_le hneg hx, le_iff_valueOf_le hx isFinite_fractionScale, valueOf_neg,
      valueOf_fractionScale]
    exact ⟨hlow, hhigh⟩

variable {x : Float}

/-- The integer part of a double: the floor, or the greatest integer if it is above that. -/
theorem toInt_wholePart (h : InRange x) :
    (wholePart x).toInt = min ⌊valueOf x⌋ (2 ^ 63 - 1) := by
  have hlow : -2 ^ 63 ≤ ⌊valueOf x⌋ := Int.le_floor.2 (by push_cast; exact h.low)
  rw [wholePart, toInt_floorInt64 h.finite, clamp, leastInt64, greatestInt64]
  omega

/-- The integer part of a double as a double: the floor, or the double itself if it is the number
above all integers of 64 bits. -/
theorem valueOf_ofInt64_wholePart (h : InRange x) :
    IsFinite (ofInt64 (wholePart x)) ∧ valueOf (ofInt64 (wholePart x)) = ⌊valueOf x⌋ := by
  rcases h.high.lt_or_eq with hlt | htop
  · -- an integral part of a double is a double, so the conversion is exact
    have hwhole : (wholePart x).toInt = ⌊valueOf x⌋ := by
      have : ⌊valueOf x⌋ < 2 ^ 63 := Int.floor_lt.2 (by push_cast; exact hlt)
      rw [toInt_wholePart h]
      omega
    have hrounds : Rounds ⌊valueOf x⌋ (Float.ofInt ⌊valueOf x⌋) := by
      have hbound : |(⌊valueOf x⌋ : ℚ)| ≤ 2 ^ 63 := by
        have hlow : -2 ^ 63 ≤ ⌊valueOf x⌋ := Int.le_floor.2 (by push_cast; exact h.low)
        have hhigh := (Int.floor_le (valueOf x)).trans h.high
        exact abs_le.2 ⟨by exact_mod_cast hlow, hhigh⟩
      exact rounds_ofInt (hbound.trans (two_pow_le_safeBound (by norm_num)))
    rw [ofInt64, hwhole]
    exact ⟨hrounds.finite, hrounds.valueOf_eq (representable_valueOf x).floor⟩
  · -- the greatest integer is rounded up again to the double above it
    have hfloor : ⌊valueOf x⌋ = 2 ^ 63 := by
      rw [htop]
      exact_mod_cast Int.floor_natCast (2 ^ 63)
    have hwhole : wholePart x = 9223372036854775807 := by
      rw [← Int64.toInt_inj, toInt_wholePart h, hfloor]
      rfl
    have hreading : reading (ofInt64 9223372036854775807) = .finite false (2 ^ 52) 11 := by decide
    rw [hwhole, IsFinite, valueOf, hreading, hfloor]
    exact ⟨trivial, by norm_num [Reading.value, signed]⟩

/-- What remains above the integer part, as a double. -/
def remainder (x : Float) : Float := x - ofInt64 (wholePart x)

theorem rounds_remainder (h : InRange x) : Rounds (Int.fract (valueOf x)) (remainder x) := by
  obtain ⟨hfinite, hexact⟩ := valueOf_ofInt64_wholePart h
  have hfract : valueOf x - valueOf (ofInt64 (wholePart x)) = Int.fract (valueOf x) := by
    rw [hexact, Int.self_sub_floor]
  have hbound : |Int.fract (valueOf x)| ≤ safeBound := by
    have hone : (1 : ℚ) ≤ safeBound := by simpa using two_pow_le_safeBound (k := 0) (by norm_num)
    rw [abs_of_nonneg (Int.fract_nonneg _)]
    exact (Int.fract_lt_one _).le.trans hone
  have hrounds := rounds_sub h.finite hfinite (by rwa [hfract])
  rwa [hfract] at hrounds

theorem remainder_bounds (h : InRange x) : 0 ≤ valueOf (remainder x) ∧ valueOf (remainder x) ≤ 1 :=
  ⟨(rounds_remainder h).nearest.ge Representable.zero (Int.fract_nonneg _),
    (rounds_remainder h).nearest.le Representable.one (Int.fract_lt_one _).le⟩

/-- **The fraction of a double**: the remainder in units of `2 ^ -63`, rounded to the nearest unit,
or the greatest fraction. -/
theorem toInt_fractionPart (h : InRange x) :
    (fractionPart x).toInt = min ⌊2 ^ 63 * valueOf (remainder x) + 1 / 2⌋ (2 ^ 63 - 1) := by
  obtain ⟨hlow, hhigh⟩ := remainder_bounds h
  have hnonneg : 0 ≤ 2 ^ 63 * valueOf (remainder x) := by positivity
  have hbound : |2 ^ 63 * valueOf (remainder x)| ≤ safeBound := by
    rw [abs_of_nonneg hnonneg]
    refine le_trans ?_ (two_pow_le_safeBound (k := 63) (by norm_num))
    linarith
  have hrounds := rounds_mul isFinite_fractionScale (rounds_remainder h).finite
    (by rwa [valueOf_fractionScale])
  -- scaling by a power of two loses nothing
  have hexact := hrounds.valueOf_eq (by
    rw [valueOf_fractionScale]
    exact (representable_valueOf _).mul_two_pow 63)
  rw [valueOf_fractionScale] at hexact
  have hround := toInt_roundInt64 hrounds.finite (by rwa [hexact])
  rw [hexact] at hround
  have hfloor : 0 ≤ ⌊2 ^ 63 * valueOf (remainder x) + 1 / 2⌋ := Int.floor_nonneg.2 (by linarith)
  rw [fractionPart, ← remainder, hround, clamp, leastInt64, greatestInt64]
  omega

end Strata.Codec.FixedPoint
