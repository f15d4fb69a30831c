/-
**Doubles are read back from their two words, and written again.**

A double is read back as its integer part plus its fraction.  Both words of what was read are those
that were written: where the fraction tells the remainder exactly, the double itself is read back;
elsewhere the double is close to zero, and the number that is read has few enough digits for the
sum to be exact, so the same floor and the same fraction come out of it again.

One interval is different.  Just below zero, within half the distance from one to the double below
it, the remainder is rounded up to one, which the second word cannot hold.  Such a double is written
with the greatest fraction, is read back as zero, and zero is written otherwise.

* `readBack`, `decode_encode_float` — what is read of the two words of a double;
* `JustBelowZero` — the doubles whose remainder is rounded up to one;
* `Settled`, `settled_of_not_justBelowZero` — the words name a number that is a double;
* `lost`, `JustBelowZero.encode_eq`, `JustBelowZero.readBack_eq` — one byte string for all of them,
  which is read back as zero;
* `encode_readBack_iff` — **where a double is written as what is read back of it**.
-/

import Strata.Proofs.Codec.FixedPointOrder
import Strata.Proofs.Codec.ReadBack
import Strata.Proofs.Number.Division
import Strata.Proofs.Number.Equality

set_option relaxedAutoImplicit false
set_option autoImplicit false

namespace Strata.Codec.FixedPoint

open Number

variable {x : Float}

/-! ### Reading back -/

/-- The double that is read back from the words of a double. -/
def readBack (x : Float) : Float := join (wholePart x) (fractionPart x)

theorem unbiased_biased (n : Int64) : unbiased (biased n) = n := by
  rw [unbiased, biased, UInt64.xor_assoc, UInt64.xor_self, UInt64.xor_zero, Int64.toInt64_toUInt64]

theorem decode_encode_int (n : Int64) : decode (encode (.int n)) = .ok (.int n) := by
  rw [encode, decode_encodeInt, unbiased_biased]

theorem decode_encode_float (h : InRange x) :
    decode (encode (.float x)) = .ok (.float (readBack x)) := by
  rw [encode_float h, decode_encodeFloat, unbiased_biased, Int64.toInt64_toUInt64, readBack]

/-! ### Below zero -/

/-- A double within `2 ^ -54` below zero. -/
def JustBelowZero (x : Float) : Prop := -2 ^ (-54 : ℤ) ≤ valueOf x ∧ valueOf x < 0

theorem floor_eq_neg_one (hlow : -1 ≤ valueOf x) (hneg : valueOf x < 0) : ⌊valueOf x⌋ = -1 := by
  rw [Int.floor_eq_iff]
  constructor <;> push_cast <;> linarith

theorem fract_eq_add_one (hlow : -1 ≤ valueOf x) (hneg : valueOf x < 0) :
    Int.fract (valueOf x) = valueOf x + 1 := by
  rw [Int.fract, floor_eq_neg_one hlow hneg]
  push_cast
  ring

/-- Above `-1/2` the remainder of a double is a number of units of `2 ^ -53`. -/
theorem exists_remainder (h : InRange x) (hlow : -1 / 2 ≤ valueOf x) (hneg : valueOf x < 0) :
    ∃ m : ℤ, m ≤ 2 ^ 53 ∧ 0 ≤ m ∧ valueOf (remainder x) = m * 2 ^ (-53 : ℤ) := by
  have hnearest := (rounds_remainder h).nearest
  rw [fract_eq_add_one (by linarith) hneg] at hnearest
  have hhalf : 2 ^ (-1 : ℤ) ≤ valueOf (remainder x) := by
    refine hnearest.ge (Representable.two_zpow (by norm_num)) ?_
    norm_num
    linarith
  obtain ⟨m, hm⟩ := hnearest.representable.exists_multiple (k := -1) (hhalf.trans (le_abs_self _))
  norm_num at hm
  obtain ⟨hnonneg, hone⟩ := remainder_bounds h
  rw [hm] at hnonneg hone
  refine ⟨m, ?_, ?_, by rw [hm]; norm_num⟩
  · have : (m : ℚ) ≤ ((2 ^ 53 : ℤ) : ℚ) := by
      push_cast
      linarith
    exact_mod_cast this
  · have : (0 : ℚ) ≤ m := by linarith
    exact_mod_cast this

/-- Just below zero the remainder is rounded up to one. -/
theorem remainder_eq_one (h : InRange x) (hlow : -2 ^ (-54 : ℤ) < valueOf x)
    (hneg : valueOf x < 0) : valueOf (remainder x) = 1 := by
  norm_num at hlow
  obtain ⟨m, hm, -, heq⟩ := exists_remainder h (by linarith) hneg
  have hnearest := (rounds_remainder h).nearest
  rw [fract_eq_add_one (by linarith) hneg] at hnearest
  rcases hm.lt_or_eq with hlt | rfl
  · -- one is nearer than any number of units below it
    have hunits : (m : ℚ) ≤ ((2 ^ 53 - 1 : ℤ) : ℚ) := by exact_mod_cast Int.le_sub_one_of_lt hlt
    have hone := hnearest.le_of_representable 1 Representable.one
    rw [heq, abs_of_nonpos (by linarith : valueOf x + 1 - 1 ≤ 0)] at hone
    norm_num at hone hunits
    have := (le_abs_self _).trans hone
    linarith
  · rw [heq]
    norm_num

/-- Further below zero it is less than one. -/
theorem exists_remainder_lt (h : InRange x) (hlow : -1 / 2 ≤ valueOf x)
    (hhigh : valueOf x < -2 ^ (-54 : ℤ)) :
    ∃ m : ℤ, m < 2 ^ 53 ∧ 0 ≤ m ∧ valueOf (remainder x) = m * 2 ^ (-53 : ℤ) := by
  norm_num at hhigh
  obtain ⟨m, hm, hnonneg, heq⟩ := exists_remainder h hlow (by linarith)
  have hnearest := (rounds_remainder h).nearest
  rw [fract_eq_add_one (by linarith) (by linarith)] at hnearest
  rcases hm.lt_or_eq with hlt | rfl
  · exact ⟨m, hlt, hnonneg, heq⟩
  · -- the double below one is nearer than one
    have hunit : Representable ((2 ^ 53 - 1 : ℤ) * 2 ^ (-53 : ℤ)) :=
      Representable.of_multiple (by norm_num) (by norm_num)
    have hnear := hnearest.le_of_representable _ hunit
    rw [heq, abs_of_nonpos (by norm_num; linarith)] at hnear
    norm_num at hnear
    rcases le_abs.1 hnear with hnear | hnear
    · linarith
    · linarith

/-! ### Two words that name a double -/

/-- The fraction that the second word of a double tells. -/
def fractionOf (x : Float) : ℚ := (fractionPart x).toInt / 2 ^ 63

theorem fractionOf_mul (x : Float) : 2 ^ 63 * fractionOf x = (fractionPart x).toInt := by
  rw [fractionOf]
  field_simp

theorem fractionOf_bounds (h : InRange x) : 0 ≤ fractionOf x ∧ fractionOf x < 1 := by
  have hnonneg : (0 : ℚ) ≤ (fractionPart x).toInt := by exact_mod_cast fractionPart_nonneg h
  have hlt : ((fractionPart x).toInt : ℚ) < ((2 ^ 63 : ℤ) : ℚ) := by
    exact_mod_cast (fractionPart x).toInt_lt
  push_cast at hlt
  constructor
  · rw [fractionOf]
    positivity
  · rw [fractionOf, div_lt_one (by positivity)]
    exact hlt

/-- Both the fraction and the sum of integer part and fraction are doubles. -/
structure Settled (x : Float) : Prop where
  fraction : Representable (fractionOf x)
  sum : Representable (⌊valueOf x⌋ + fractionOf x)

theorem Sharp.fractionOf_eq (hsharp : Sharp x) (h : InRange x) :
    fractionOf x = Int.fract (valueOf x) := by
  rw [fractionOf, hsharp.fractionPart_eq h]
  field_simp

/-- Where the second word tells the remainder exactly, the sum is the double itself. -/
theorem Sharp.settled (hsharp : Sharp x) (h : InRange x) : Settled x := by
  have hfraction := hsharp.fractionOf_eq h
  refine ⟨hfraction ▸ hsharp.1, ?_⟩
  rw [hfraction, Int.floor_add_fract]
  exact representable_valueOf x

/-- Just above zero the fraction has 53 digits at most. -/
theorem settled_of_small (h : InRange x) (hpos : 0 ≤ valueOf x)
    (hsmall : valueOf x < 2 ^ (-11 : ℤ)) : Settled x := by
  have hone : (2 : ℚ) ^ (-11 : ℤ) ≤ 1 := by norm_num
  have hfloor : ⌊valueOf x⌋ = 0 := by
    rw [Int.floor_eq_iff]
    constructor <;> push_cast <;> linarith
  have hle := fractionPart_le_of_fract_le h (c := 2 ^ (-11 : ℤ)) (n := 2 ^ 52)
    (Representable.two_zpow (by norm_num)) (by norm_num) (by
      rw [Int.fract, hfloor, Int.cast_zero, sub_zero]
      exact hsmall.le)
  have hdigits : |(fractionPart x).toInt| ≤ 2 ^ 53 := by
    rw [abs_of_nonneg (fractionPart_nonneg h)]
    omega
  have hfraction : Representable (fractionOf x) := by
    have hmultiple := Representable.of_multiple (e := -63) hdigits (by norm_num)
    rw [zpow_neg] at hmultiple
    exact hmultiple
  refine ⟨hfraction, ?_⟩
  rwa [hfloor, Int.cast_zero, zero_add]

/-- Below zero the fraction is the rounded remainder, a number of units of `2 ^ -53`. -/
theorem exists_fractionOf (h : InRange x) (hlow : -1 / 2 ≤ valueOf x)
    (hhigh : valueOf x < -2 ^ (-54 : ℤ)) :
    ∃ m : ℤ, m < 2 ^ 53 ∧ 0 ≤ m ∧ valueOf (remainder x) = m * 2 ^ (-53 : ℤ) ∧
      fractionOf x = m * 2 ^ (-53 : ℤ) := by
  obtain ⟨m, hlt, hnonneg, heq⟩ := exists_remainder_lt h hlow hhigh
  have hword : (fractionPart x).toInt = m * 2 ^ 10 := by
    have hscaled : 2 ^ 63 * valueOf (remainder x) + 1 / 2 = ((m * 2 ^ 10 : ℤ) : ℚ) + 1 / 2 := by
      rw [heq]
      push_cast
      ring
    have hhalf : ⌊((1 : ℚ) / 2)⌋ = 0 := by norm_num
    rw [toInt_fractionPart h, hscaled, Int.floor_intCast_add, hhalf]
    omega
  refine ⟨m, hlt, hnonneg, heq, ?_⟩
  rw [fractionOf, hword]
  push_cast
  ring

/-- Below zero the sum has 53 digits at most. -/
theorem settled_of_neg (h : InRange x) (hlow : -1 / 2 ≤ valueOf x)
    (hhigh : valueOf x < -2 ^ (-54 : ℤ)) : Settled x := by
  obtain ⟨m, hlt, hnonneg, -, hfraction⟩ := exists_fractionOf h hlow hhigh
  norm_num at hhigh
  have hsum : (⌊valueOf x⌋ : ℚ) + fractionOf x = (m - 2 ^ 53 : ℤ) * 2 ^ (-53 : ℤ) := by
    rw [floor_eq_neg_one (by linarith) (by linarith), hfraction]
    push_cast
    ring
  constructor
  · rw [hfraction]
    exact Representable.of_multiple (by rw [abs_of_nonneg hnonneg]; omega) (by norm_num)
  · rw [hsum]
    exact Representable.of_multiple (by rw [abs_of_nonpos (by omega)]; omega) (by norm_num)

/-- **Away from the doubles just below zero the two words name a double.** -/
theorem settled_of_not_justBelowZero (h : InRange x) (hzero : ¬ JustBelowZero x) : Settled x := by
  by_cases hsharp : Sharp x
  · exact hsharp.settled h
  · have hsmall : |valueOf x| < 1 / 2 := not_le.1 (mt sharp_of_half_le hsharp)
    have htiny : valueOf x < 2 ^ (-11 : ℤ) := not_le.1 (mt sharp_of_le hsharp)
    rcases le_or_gt 0 (valueOf x) with hpos | hneg
    · exact settled_of_small h hpos htiny
    · have hhigh : valueOf x < -2 ^ (-54 : ℤ) := by
        by_contra hge
        exact hzero ⟨not_lt.1 hge, hneg⟩
      exact settled_of_neg h (by linarith [(abs_lt.1 hsmall).1]) hhigh

/-! ### What is read back -/

/-- The second word is a double, and the division takes it back to the fraction. -/
theorem Settled.rounds_quotient (hsettled : Settled x) (h : InRange x) :
    Rounds (fractionOf x) (ofInt64 (fractionPart x) / fractionScale) := by
  obtain ⟨hlow, hhigh⟩ := fractionOf_bounds h
  have hword : Representable (fractionPart x).toInt := by
    rw [← fractionOf_mul]
    exact hsettled.fraction.mul_two_pow 63
  have hint : Rounds (fractionPart x).toInt (ofInt64 (fractionPart x)) := by
    refine rounds_ofInt (le_trans ?_ (two_pow_le_safeBound (k := 63) (by norm_num)))
    rw [← fractionOf_mul, abs_of_nonneg (by linarith)]
    linarith
  have hquotient : valueOf (ofInt64 (fractionPart x)) / valueOf fractionScale = fractionOf x := by
    rw [hint.valueOf_eq hword, valueOf_fractionScale, fractionOf]
  have hscale : valueOf fractionScale ≠ 0 := by
    rw [valueOf_fractionScale]
    norm_num
  have hrounds := rounds_div hint.finite isFinite_fractionScale hscale ?_ ?_
  · rwa [hquotient] at hrounds
  · -- a fraction other than zero is one unit at least
    rw [hquotient, hint.valueOf_eq hword]
    rcases eq_or_ne (fractionPart x).toInt 0 with hzero | hzero
    · exact Or.inl (by rw [hzero, Int.cast_zero])
    · have hone : (1 : ℚ) ≤ (fractionPart x).toInt := by
        have hnonneg := fractionPart_nonneg h
        exact_mod_cast (by omega : 1 ≤ (fractionPart x).toInt)
      have hsmall : (2 : ℚ) ^ (-1021 : ℤ) ≤ 2 ^ (-63 : ℤ) :=
        zpow_le_zpow_right₀ (by norm_num) (by norm_num)
      refine Or.inr (hsmall.trans ?_)
      rw [abs_of_nonneg hlow, zpow_neg]
      rw [← fractionOf_mul] at hone
      norm_num
      linarith
  · rw [hquotient, abs_of_nonneg hlow]
    exact hhigh.le.trans (by simpa using two_pow_le_safeBound (k := 0) (by norm_num))

theorem le_floor (h : InRange x) : (-2 ^ 63 : ℚ) ≤ ⌊valueOf x⌋ := by
  have hfloor : (-2 ^ 63 : ℤ) ≤ ⌊valueOf x⌋ := Int.le_floor.2 (by push_cast; exact h.low)
  exact_mod_cast hfloor

/-- **The number that is read back** is the integer part plus the fraction. -/
theorem Settled.valueOf_readBack (hsettled : Settled x) (h : InRange x) :
    IsFinite (readBack x) ∧ valueOf (readBack x) = ⌊valueOf x⌋ + fractionOf x := by
  obtain ⟨hlow, hhigh⟩ := fractionOf_bounds h
  obtain ⟨hwhole, hwhole'⟩ := valueOf_ofInt64_wholePart h
  have hquotient := hsettled.rounds_quotient h
  have hquotient' := hquotient.valueOf_eq hsettled.fraction
  have hbound : |(⌊valueOf x⌋ : ℚ) + fractionOf x| ≤ safeBound := by
    refine le_trans ?_ (two_pow_le_safeBound (k := 64) (by norm_num))
    have hbottom := le_floor h
    have htop := (Int.floor_le (valueOf x)).trans h.high
    rw [abs_le]
    constructor <;> linarith
  have hadd := rounds_add hwhole hquotient.finite (by rwa [hwhole', hquotient'])
  rw [hwhole', hquotient'] at hadd
  exact ⟨hadd.finite, hadd.valueOf_eq hsettled.sum⟩

theorem floor_floor_add_fractionOf (h : InRange x) :
    ⌊(⌊valueOf x⌋ : ℚ) + fractionOf x⌋ = ⌊valueOf x⌋ := by
  obtain ⟨hlow, hhigh⟩ := fractionOf_bounds h
  rw [Int.floor_intCast_add, Int.floor_eq_zero_iff.2 ⟨hlow, hhigh⟩, add_zero]

/-- The number above all integers has no fraction. -/
theorem fractionOf_top (h : InRange x) (htop : valueOf x = 2 ^ 63) : fractionOf x = 0 := by
  have hsharp : Sharp x := sharp_of_le (by rw [htop]; norm_num)
  have hfract : Int.fract (valueOf x) = 0 := by
    rw [htop]
    exact_mod_cast Int.fract_natCast (2 ^ 63)
  rw [fractionOf, hsharp.fractionPart_eq h, hfract]
  norm_num

/-- What is read back is a double of the range. -/
theorem Settled.inRange_readBack (hsettled : Settled x) (h : InRange x) : InRange (readBack x) := by
  obtain ⟨hfinite, hvalue⟩ := hsettled.valueOf_readBack h
  obtain ⟨hlow, hhigh⟩ := fractionOf_bounds h
  have hbottom := le_floor h
  refine ⟨hfinite, by rw [hvalue]; linarith, ?_⟩
  rcases h.high.lt_or_eq with hlt | htop
  · have hfloor : ⌊valueOf x⌋ + 1 ≤ 2 ^ 63 := by
      have := floor_lt_of_lt hlt
      omega
    have hbelow : (⌊valueOf x⌋ : ℚ) + 1 ≤ 2 ^ 63 := by exact_mod_cast hfloor
    rw [hvalue]
    linarith
  · rw [hvalue, fractionOf_top h htop, add_zero]
    exact (Int.floor_le _).trans h.high

/-- **What is read back is written as the double was.** -/
theorem Settled.encode_readBack (hsettled : Settled x) (h : InRange x) :
    encode (.float (readBack x)) = encode (.float x) := by
  obtain ⟨-, hvalue⟩ := hsettled.valueOf_readBack h
  have hrange := hsettled.inRange_readBack h
  have hfloor := floor_floor_add_fractionOf h
  have hwhole : wholePart (readBack x) = wholePart x := by
    rw [← Int64.toInt_inj, toInt_wholePart hrange, toInt_wholePart h, hvalue, hfloor]
  have hfract : Int.fract (valueOf (readBack x)) = fractionOf x := by
    rw [Int.fract, hvalue, hfloor, add_sub_cancel_left]
  -- the remainder of what is read back is the fraction, and the second word tells it exactly
  have hsharp : Sharp (readBack x) := by
    refine ⟨?_, (fractionPart x).toInt, ?_⟩
    · rw [hfract]
      exact hsettled.fraction
    · rw [hfract, fractionOf_mul]
  have hword : fractionPart (readBack x) = fractionPart x := by
    have heq := hsharp.fractionPart_eq hrange
    rw [hfract, fractionOf_mul] at heq
    exact Int64.toInt_inj.1 (by exact_mod_cast heq)
  rw [encode_float hrange, encode_float h, encodeFloat, encodeFloat, hwhole, hword]

/-! ### Just below zero -/

/-- The bytes of all doubles just below zero. -/
def lost : Bytes :=
  tagged tagNumber
    (Bytes.ofWord (biased (-1)) ++ Bytes.ofWord (9223372036854775807 : Int64).toUInt64)

theorem JustBelowZero.inRange (hzero : JustBelowZero x) : InRange x := by
  obtain ⟨hlow, hneg⟩ := hzero
  have hfinite : IsFinite x := by
    rw [valueOf] at hneg
    rw [IsFinite]
    cases hreading : reading x with
    | finite negative m e => trivial
    | _ => simp [hreading, Reading.value] at hneg
  norm_num at hlow
  exact ⟨hfinite, by linarith, by linarith⟩

/-- The least double whose remainder is rounded up to one, `-2 ^ -54`. -/
def lowest : Float := Float.ofBits 0xbc90000000000000

theorem valueOf_lowest : IsFinite lowest ∧ valueOf lowest = -2 ^ (-54 : ℤ) := by
  have hreading : reading lowest = .finite true (2 ^ 52) (-106) := by decide
  rw [IsFinite, valueOf, hreading]
  refine ⟨trivial, ?_⟩
  norm_num [Reading.value, signed]

theorem fractionPart_lowest : fractionPart lowest = 9223372036854775807 := by decide

/-- **Just below zero a double has the greatest fraction.** -/
theorem JustBelowZero.words (hzero : JustBelowZero x) :
    wholePart x = -1 ∧ fractionPart x = 9223372036854775807 := by
  have h := hzero.inRange
  obtain ⟨hlow, hneg⟩ := hzero
  constructor
  · rw [← Int64.toInt_inj, toInt_wholePart h, floor_eq_neg_one ?_ hneg]
    · rfl
    · norm_num at hlow
      linarith
  · rcases hlow.lt_or_eq with hlt | heq
    · have hceil : ⌊(2 : ℚ) ^ 63 * 1 + 1 / 2⌋ = 2 ^ 63 := by norm_num
      rw [← Int64.toInt_inj, toInt_fractionPart h, remainder_eq_one h hlt hneg, hceil]
      rfl
    · -- at the end of the interval two doubles are equally near to the remainder, and one is even
      obtain ⟨hfinite, hvalue⟩ := valueOf_lowest
      have hx : x = lowest :=
        eq_of_valueOf_eq h.finite hfinite (by rw [hvalue, heq]) hneg.ne
      rw [hx, fractionPart_lowest]

theorem JustBelowZero.encode_eq (hzero : JustBelowZero x) : encode (.float x) = lost := by
  obtain ⟨hwhole, hfraction⟩ := hzero.words
  rw [encode_float hzero.inRange, encodeFloat, hwhole, hfraction, lost]

theorem join_greatest : join (-1) 9223372036854775807 = 0 := by
  have hbits : (join (-1) 9223372036854775807).toBits = 0 := by decide
  rw [← ofBits_toBits (join (-1) 9223372036854775807), hbits]
  rfl

/-- **Just below zero a double is read back as zero.** -/
theorem JustBelowZero.readBack_eq (hzero : JustBelowZero x) : readBack x = 0 := by
  obtain ⟨hwhole, hfraction⟩ := hzero.words
  rw [readBack, hwhole, hfraction, join_greatest]

/-- Zero is written otherwise. -/
theorem encode_zero_ne_lost : encode (.float 0) ≠ lost := by decide

/-- Zero is read back as zero too. -/
theorem decode_encode_zero : decode (encode (.float 0)) = .ok (.float 0) := by
  have hrange : inRange 0 = true := by decide
  have hwhole : wholePart 0 = 0 := by decide
  have hfraction : fractionPart 0 = 0 := by decide +kernel
  have hbits : (join 0 0).toBits = 0 := by decide +kernel
  have hjoin : join 0 0 = 0 := by
    rw [← ofBits_toBits (join 0 0), hbits]
    rfl
  rw [decode_encode_float (inRange_iff.1 hrange), readBack, hwhole, hfraction, hjoin]

/-- **Where a double is written as what is read back of it**: everywhere but just below zero. -/
theorem encode_readBack_iff (h : InRange x) :
    encode (.float (readBack x)) = encode (.float x) ↔ ¬ JustBelowZero x := by
  constructor
  · intro heq hzero
    rw [hzero.readBack_eq, hzero.encode_eq] at heq
    exact encode_zero_ne_lost heq
  · intro hzero
    exact (settled_of_not_justBelowZero h hzero).encode_readBack h

end Strata.Codec.FixedPoint
