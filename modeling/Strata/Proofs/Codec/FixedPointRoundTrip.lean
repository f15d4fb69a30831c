/-
**How near a double is to what is read back of its two words.**

Away from zero the second word tells the remainder exactly, and what is read back is the double
itself.  Close to zero the double has digits that the two words do not hold: below zero they are
lost where the remainder, a number just below one, is rounded to a double; above zero, where it is
rounded to units of `2 ^ -63`.  Each rounding is to a nearest point, so that what is read back is
off by half a unit.

* `Settled.readBack_sub` — what is read back is off by what the fraction is off;
* `Sharp.valueOf_readBack` — away from zero, by nothing;
* `abs_readBack_sub_le_of_neg`, `abs_readBack_sub_le_of_small` — **on either side of zero**;
* `float_round_trip` — the accuracy of what is read back, over the whole range.
-/

import Strata.Proofs.Codec.FixedPointStable

set_option relaxedAutoImplicit false
set_option autoImplicit false

namespace Strata.Codec.FixedPoint

open Number

variable {x : Float}

/-! ### The second word -/

/-- **The second word is of 63 bits.** -/
theorem toNat_fractionPart_lt (h : InRange x) : (fractionPart x).toUInt64.toNat < 2 ^ 63 := by
  have hword := toNat_fractionPart h
  have hlt := (fractionPart x).toInt_lt
  omega

/-- What is read back is off by what the fraction is off. -/
theorem Settled.readBack_sub (hsettled : Settled x) (h : InRange x) :
    valueOf (readBack x) - valueOf x = fractionOf x - Int.fract (valueOf x) := by
  rw [(hsettled.valueOf_readBack h).2, Int.fract]
  ring

theorem isFinite_valueOf_zero : IsFinite 0 ∧ valueOf 0 = 0 := by
  have hrounds := rounds_small (n := 0) (by norm_num)
  exact ⟨hrounds.finite, hrounds.valueOf_eq (by simpa using Representable.zero)⟩

theorem isFinite_readBack (h : InRange x) : IsFinite (readBack x) := by
  by_cases hzero : JustBelowZero x
  · rw [hzero.readBack_eq]
    exact isFinite_valueOf_zero.1
  · exact ((settled_of_not_justBelowZero h hzero).valueOf_readBack h).1

/-! ### Away from zero -/

/-- **A double whose remainder the second word tells exactly is read back exactly.** -/
theorem Sharp.valueOf_readBack (hsharp : Sharp x) (h : InRange x) :
    valueOf (readBack x) = valueOf x := by
  have hsub := (hsharp.settled h).readBack_sub h
  rw [hsharp.fractionOf_eq h, sub_self] at hsub
  exact sub_eq_zero.1 hsub

theorem sharp_of_eq_zero (hzero : valueOf x = 0) : Sharp x :=
  sharp_of_fract (m := 0) (by rw [hzero, Int.fract_zero, mul_zero, Int.cast_zero])

/-- Away from zero are all doubles but those of the two intervals. -/
theorem sharp_of_apart (hbelow : ¬ (-1 / 2 < valueOf x ∧ valueOf x < 0))
    (habove : ¬ (0 < valueOf x ∧ valueOf x < 2 ^ (-11 : ℤ))) : Sharp x := by
  rcases lt_trichotomy (valueOf x) 0 with hneg | hzero | hpos
  · have hhalf : valueOf x ≤ -1 / 2 := by
      by_contra hlt
      exact hbelow ⟨not_le.1 hlt, hneg⟩
    refine sharp_of_half_le ?_
    rw [abs_of_neg hneg]
    linarith
  · exact sharp_of_eq_zero hzero
  · refine sharp_of_le ?_
    by_contra hlt
    exact habove ⟨hpos, not_le.1 hlt⟩

/-! ### Below zero -/

/-- **Below zero, by half the distance of doubles below one**, where the remainder lies.  Just below
zero the remainder is one, and what is read back is zero. -/
theorem abs_readBack_sub_le_of_neg (h : InRange x) (hlow : -1 / 2 < valueOf x)
    (hneg : valueOf x < 0) : |valueOf (readBack x) - valueOf x| ≤ 2 ^ (-54 : ℤ) := by
  by_cases hzero : JustBelowZero x
  · have hread : valueOf (readBack x) = 0 := by
      rw [hzero.readBack_eq]
      exact isFinite_valueOf_zero.2
    rw [hread, zero_sub, abs_neg, abs_of_neg hneg]
    linarith [hzero.1]
  · have hhigh : valueOf x < -2 ^ (-54 : ℤ) := by
      by_contra hge
      exact hzero ⟨not_lt.1 hge, hneg⟩
    obtain ⟨m, -, -, hremainder, hfraction⟩ := exists_fractionOf h hlow.le hhigh
    have hfract := fract_eq_add_one (by linarith) hneg
    rw [(settled_of_neg h hlow.le hhigh).readBack_sub h, hfraction, ← hremainder, abs_sub_comm]
    refine (rounds_remainder h).nearest.abs_sub_le (by norm_num) ?_
    rw [hfract, abs_of_nonneg (by linarith)]
    norm_num
    linarith

/-! ### Above zero -/

/-- **Above zero, by half a unit of the second word.** -/
theorem abs_readBack_sub_le_of_small (h : InRange x) (hpos : 0 < valueOf x)
    (hsmall : valueOf x < 2 ^ (-11 : ℤ)) :
    |valueOf (readBack x) - valueOf x| ≤ 2 ^ (-64 : ℤ) := by
  have htiny : valueOf x < 1 / 2 := hsmall.trans_le (by norm_num)
  have hfract : Int.fract (valueOf x) = valueOf x :=
    Int.fract_eq_self.2 ⟨hpos.le, by linarith⟩
  -- the remainder is the double itself, so that only the units round
  have hremainder : valueOf (remainder x) = valueOf x := by
    have hrounds := rounds_remainder h
    rw [hfract] at hrounds
    exact hrounds.valueOf_eq (representable_valueOf x)
  have hword : (fractionPart x).toInt = ⌊2 ^ 63 * valueOf x + 1 / 2⌋ := by
    have hlt : ⌊2 ^ 63 * valueOf x + 1 / 2⌋ < 2 ^ 63 := by
      refine Int.floor_lt.2 ?_
      push_cast
      linarith
    rw [toInt_fractionPart h, hremainder]
    omega
  have hlow := Int.floor_le (2 ^ 63 * valueOf x + 1 / 2)
  have hhigh := Int.lt_floor_add_one (2 ^ 63 * valueOf x + 1 / 2)
  rw [← hword, ← fractionOf_mul] at hlow hhigh
  rw [(settled_of_small h hpos.le hsmall).readBack_sub h, hfract, abs_le]
  norm_num
  constructor <;> linarith

/-! ### The whole range -/

/-- **How near a double is to what is read back of its words.**  A double of the range is written as
two words, the second of 63 bits, and read back as a double.  It is the same number, but for what
lies close to zero: between `-1/2` and zero it is off by `2 ^ -54` at most, and between zero and
`2 ^ -11` by `2 ^ -64`.  So what is at least a half by magnitude, what lies from `2 ^ -11` to one,
and both zeros are read back exactly. -/
theorem float_round_trip (x : Float) (h : InRange x) :
    ∃ (whole fraction : UInt64) (y : Float),
      encode (.float x) = tagged tagNumber (Bytes.ofWord whole ++ Bytes.ofWord fraction) ∧
      fraction.toNat < 2 ^ 63 ∧
      decode (encode (.float x)) = .ok (.float y) ∧ IsFinite y ∧
      (¬ (-1 / 2 < valueOf x ∧ valueOf x < 0) → ¬ (0 < valueOf x ∧ valueOf x < 2 ^ (-11 : ℤ)) →
        valueOf y = valueOf x) ∧
      (-1 / 2 < valueOf x ∧ valueOf x < 0 → |valueOf y - valueOf x| ≤ 2 ^ (-54 : ℤ)) ∧
      (0 < valueOf x ∧ valueOf x < 2 ^ (-11 : ℤ) → |valueOf y - valueOf x| ≤ 2 ^ (-64 : ℤ)) ∧
      (1 / 2 ≤ |valueOf x| ∨ 2 ^ (-11 : ℤ) ≤ valueOf x ∧ valueOf x < 1 ∨ valueOf x = 0 →
        valueOf y = valueOf x) := by
  refine ⟨biased (wholePart x), (fractionPart x).toUInt64, readBack x, ?_,
    toNat_fractionPart_lt h, decode_encode_float h, isFinite_readBack h, ?_, ?_, ?_, ?_⟩
  · rw [encode_float h, encodeFloat]
  · intro hbelow habove
    exact (sharp_of_apart hbelow habove).valueOf_readBack h
  · rintro ⟨hlow, hneg⟩
    exact abs_readBack_sub_le_of_neg h hlow hneg
  · rintro ⟨hpos, hsmall⟩
    exact abs_readBack_sub_le_of_small h hpos hsmall
  · rintro (hhalf | ⟨hle, -⟩ | hzero)
    · exact (sharp_of_half_le hhalf).valueOf_readBack h
    · exact (sharp_of_le hle).valueOf_readBack h
    · exact (sharp_of_eq_zero hzero).valueOf_readBack h

/-- A tenth below zero is read back with an error. -/
theorem float_round_trip_tenth :
    InRange (-0.1) ∧ ∃ (fraction : UInt64) (y : Float), fraction.toNat < 2 ^ 63 ∧
      decode (encode (.float (-0.1))) = .ok (.float y) ∧ IsFinite y ∧
      |valueOf y - valueOf (-0.1)| ≤ 2 ^ (-54 : ℤ) := by
  have hreading : reading (-0.1) = .finite true 7205759403792794 (-56) := by decide
  have hvalue : valueOf (-0.1) = -7205759403792794 / 2 ^ 56 := by
    rw [valueOf, hreading]
    norm_num [Reading.value, signed]
  have hrange : InRange (-0.1) :=
    ⟨by rw [IsFinite, hreading]; trivial, by rw [hvalue]; norm_num, by rw [hvalue]; norm_num⟩
  obtain ⟨-, fraction, y, -, hlt, hread, hfinite, -, hbelow, -⟩ := float_round_trip (-0.1) hrange
  exact ⟨hrange, fraction, y, hlt, hread, hfinite,
    hbelow ⟨by rw [hvalue]; norm_num, by rw [hvalue]; norm_num⟩⟩

end Strata.Codec.FixedPoint
