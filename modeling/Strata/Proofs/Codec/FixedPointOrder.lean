/-
**The order of encoded numbers.**

Integers, and doubles of their range, are encoded in their order.  An integer comes before the
doubles of its integer part, because its encoding is a proper initial part of theirs.  Of two
doubles the lesser is never encoded as the greater; both are encoded alike only where the grid of
doubles is finer than the second word can tell: just below zero, where the remainder is close to
one and has to be rounded, and just above it, where it is less than `2 ^ -11`.

* `encode_int_lt_float_iff`, `encode_float_lt_int_iff` — an integer and a double;
* `fractionPart_le_of_fract_le`, `le_fractionPart_of_le_fract` — points that rounding does not
  cross;
* `neg_half_le_of_fractionPart_eq`, `le_two_zpow_of_fractionPart_eq` — how far from zero;
* `valueOf_of_fractionPart_eq` — where doubles are encoded alike;
* `encode_order` — **the order of numbers**.
-/

import Strata.Proofs.Codec.FixedPoint

set_option relaxedAutoImplicit false
set_option autoImplicit false

namespace Strata.Codec.FixedPoint

open Number

variable {x y : Float} {i j : Int64}

/-! ### Words -/

theorem tagged_lt_tagged_iff {tag : UInt8} {a b : Bytes} : tagged tag a < tagged tag b ↔ a < b := by
  simp [tagged]

theorem length_biased (n : Int64) (m : Int64) :
    (Bytes.ofWord (biased n)).length = (Bytes.ofWord (biased m)).length := by
  rw [Bytes.length_ofWord, Bytes.length_ofWord]

theorem encode_float (h : InRange x) : encode (.float x) = encodeFloat x := by
  rw [encode, if_pos (inRange_iff.2 h)]

theorem encode_int_lt_int_iff : encode (.int i) < encode (.int j) ↔ i.toInt < j.toInt := by
  rw [encode, encode, encodeInt, encodeInt, tagged_lt_tagged_iff, biased_lt_biased_iff]

theorem encode_float_lt_int_iff (h : InRange x) :
    encode (.float x) < encode (.int i) ↔ (wholePart x).toInt < i.toInt := by
  rw [encode_float h, encode, encodeFloat, encodeInt, tagged_lt_tagged_iff,
    ← List.append_nil (Bytes.ofWord (biased i)), Bytes.append_lt_append_iff (length_biased _ _),
    biased_lt_biased_iff]
  simp

theorem encode_int_lt_float_iff (h : InRange x) :
    encode (.int i) < encode (.float x) ↔ i.toInt ≤ (wholePart x).toInt := by
  -- behind equal first words the integer has nothing, the double its second word
  have hword : [] < Bytes.ofWord (fractionPart x).toUInt64 :=
    List.nil_lt_cons _ _
  rw [encode_float h, encode, encodeFloat, encodeInt, tagged_lt_tagged_iff,
    ← List.append_nil (Bytes.ofWord (biased i)), Bytes.append_lt_append_iff (length_biased _ _),
    biased_lt_biased_iff, biased_inj, le_iff_lt_or_eq]
  simp [hword]

/-! ### Fractions -/

theorem fractionPart_nonneg (h : InRange x) : 0 ≤ (fractionPart x).toInt := by
  have hfloor : 0 ≤ ⌊2 ^ 63 * valueOf (remainder x) + 1 / 2⌋ := by
    have := (remainder_bounds h).1
    exact Int.floor_nonneg.2 (by linarith)
  rw [toInt_fractionPart h]
  omega

theorem toNat_fractionPart (h : InRange x) :
    ((fractionPart x).toUInt64.toNat : ℤ) = (fractionPart x).toInt := by
  have hnonneg := fractionPart_nonneg h
  have hlt : (fractionPart x).toUInt64.toNat < 2 ^ 64 := (fractionPart x).toUInt64.toNat_lt
  have hint : (fractionPart x).toInt = if 2 * (fractionPart x).toUInt64.toNat < 2 ^ 64
      then ((fractionPart x).toUInt64.toNat : ℤ)
      else ((fractionPart x).toUInt64.toNat : ℤ) - 2 ^ 64 :=
    BitVec.toInt_eq_toNat_cond (fractionPart x).toBitVec
  rw [hint] at hnonneg ⊢
  split at hnonneg <;> omega

/-- Two doubles are ordered by their integer parts, and by their fractions if these are equal. -/
theorem encode_float_lt_float_iff (hx : InRange x) (hy : InRange y) :
    encode (.float x) < encode (.float y) ↔
      (wholePart x).toInt < (wholePart y).toInt ∨
        (wholePart x).toInt = (wholePart y).toInt ∧
          (fractionPart x).toInt < (fractionPart y).toInt := by
  rw [encode_float hx, encode_float hy, encodeFloat, encodeFloat, tagged_lt_tagged_iff,
    Bytes.append_lt_append_iff (length_biased _ _), biased_lt_biased_iff, biased_inj,
    Bytes.ofWord_lt_ofWord_iff, ← toNat_fractionPart hx, ← toNat_fractionPart hy, Nat.cast_lt]

/-- A point of the grid that is a whole number of units is not crossed by rounding. -/
theorem fractionPart_le_of_fract_le (h : InRange x) {c : ℚ} {n : ℤ} (hc : Representable c)
    (hn : 2 ^ 63 * c = n) (hle : Int.fract (valueOf x) ≤ c) : (fractionPart x).toInt ≤ n := by
  have hremainder := (rounds_remainder h).nearest.le hc hle
  have hfloor : ⌊2 ^ 63 * valueOf (remainder x) + 1 / 2⌋ ≤ n := by
    refine Int.lt_add_one_iff.1 (Int.floor_lt.2 ?_)
    push_cast
    linarith
  rw [toInt_fractionPart h]
  omega

theorem le_fractionPart_of_le_fract (h : InRange x) {c : ℚ} {n : ℤ} (hc : Representable c)
    (hn : 2 ^ 63 * c = n) (hone : n ≤ 2 ^ 63 - 1) (hle : c ≤ Int.fract (valueOf x)) :
    n ≤ (fractionPart x).toInt := by
  have hremainder := (rounds_remainder h).nearest.ge hc hle
  have hfloor : n ≤ ⌊2 ^ 63 * valueOf (remainder x) + 1 / 2⌋ := by
    refine Int.le_floor.2 ?_
    linarith
  rw [toInt_fractionPart h]
  omega

/-- The second word tells the remainder of the double exactly. -/
def Sharp (x : Float) : Prop :=
  Representable (Int.fract (valueOf x)) ∧ ∃ n : ℤ, 2 ^ 63 * Int.fract (valueOf x) = n

theorem Sharp.fractionPart_eq (hsharp : Sharp x) (h : InRange x) :
    ((fractionPart x).toInt : ℚ) = 2 ^ 63 * Int.fract (valueOf x) := by
  obtain ⟨hrepresentable, n, hn⟩ := hsharp
  have hlt : n ≤ 2 ^ 63 - 1 := by
    have : (n : ℚ) < ((2 ^ 63 : ℤ) : ℚ) := by
      push_cast
      linarith [Int.fract_lt_one (valueOf x)]
    exact Int.le_sub_one_of_lt (by exact_mod_cast this)
  have hle := fractionPart_le_of_fract_le h hrepresentable hn le_rfl
  have hge := le_fractionPart_of_le_fract h hrepresentable hn hlt le_rfl
  rw [hn, le_antisymm hle hge]

/-- A remainder with at most 53 digits behind the point is sharp. -/
theorem sharp_of_fract {m : ℤ} (hm : 2 ^ 53 * Int.fract (valueOf x) = m) : Sharp x := by
  have hlow := Int.fract_nonneg (valueOf x)
  have hhigh := Int.fract_lt_one (valueOf x)
  refine ⟨⟨m, -53, ?_, by norm_num, ?_⟩, 2 ^ 10 * m, ?_⟩
  · have h₁ : (0 : ℚ) ≤ m := by linarith
    have h₂ : (m : ℚ) < ((2 ^ 53 : ℤ) : ℚ) := by
      push_cast
      linarith
    rw [abs_of_nonneg (by exact_mod_cast h₁)]
    exact_mod_cast h₂
  · rw [← hm, zpow_neg]
    norm_num
    ring
  · push_cast
    linarith

/-- Doubles of a half and more, on either side, have no digits beyond the second word. -/
theorem sharp_of_half_le (h : 1 / 2 ≤ |valueOf x|) : Sharp x := by
  obtain ⟨n, hn⟩ := (representable_valueOf x).exists_multiple (k := -1) (by
    norm_num at h ⊢
    exact h)
  have hscaled : 2 ^ 53 * valueOf x = n := by
    rw [hn]
    norm_num
    ring
  refine sharp_of_fract (m := n - 2 ^ 53 * ⌊valueOf x⌋) ?_
  rw [Int.fract, mul_sub, hscaled]
  push_cast
  ring

/-- Nor do doubles of `2 ^ -11` and more. -/
theorem sharp_of_le (h : 2 ^ (-11 : ℤ) ≤ valueOf x) : Sharp x := by
  have hpos : 0 < valueOf x := lt_of_lt_of_le (zpow_pos (by norm_num) _) h
  rcases le_or_gt (1 / 2) (valueOf x) with hhalf | hhalf
  · exact sharp_of_half_le (by rwa [abs_of_pos hpos])
  · obtain ⟨n, hn⟩ := (representable_valueOf x).exists_multiple (by rwa [abs_of_pos hpos])
    have hfract : Int.fract (valueOf x) = valueOf x := Int.fract_eq_self.2 ⟨hpos.le, by linarith⟩
    rw [Sharp, hfract]
    refine ⟨representable_valueOf x, n, ?_⟩
    rw [hn]
    norm_num
    ring

/-! ### Doubles that are encoded alike -/

/-- Below `2 ^ 63` there is no double with the greatest integer part. -/
theorem floor_lt_of_lt (h : valueOf x < 2 ^ 63) : ⌊valueOf x⌋ < 2 ^ 63 - 1 := by
  refine Int.floor_lt.2 ?_
  rcases le_or_gt (2 ^ 62) (valueOf x) with hlarge | hsmall
  · -- from `2 ^ 62` on doubles are `2 ^ 10` apart
    have hpos : 0 < valueOf x := lt_of_lt_of_le (by norm_num) hlarge
    obtain ⟨n, hn⟩ := (representable_valueOf x).exists_multiple (k := 62)
      (by rw [abs_of_pos hpos]; exact_mod_cast hlarge)
    have hn53 : n ≤ 2 ^ 53 - 1 := by
      have : (n : ℚ) < ((2 ^ 53 : ℤ) : ℚ) := by
        rw [hn] at h
        norm_num at h ⊢
        linarith
      exact Int.le_sub_one_of_lt (by exact_mod_cast this)
    have hcast : (n : ℚ) ≤ ((2 ^ 53 - 1 : ℤ) : ℚ) := by exact_mod_cast hn53
    rw [hn]
    norm_num at hcast ⊢
    linarith
  · norm_num at hsmall ⊢
    linarith

/-- The integer parts of two doubles in their order are in their order, and equal only if the
floors are. -/
theorem wholePart_mono (hx : InRange x) (hy : InRange y) (h : valueOf x < valueOf y) :
    (wholePart x).toInt < (wholePart y).toInt ∨
      (wholePart x).toInt = (wholePart y).toInt ∧ ⌊valueOf x⌋ = ⌊valueOf y⌋ := by
  have hmono : ⌊valueOf x⌋ ≤ ⌊valueOf y⌋ := Int.floor_mono h.le
  have htop : ⌊valueOf x⌋ < 2 ^ 63 - 1 := floor_lt_of_lt (h.trans_le hy.high)
  rw [toInt_wholePart hx, toInt_wholePart hy]
  omega

/-- Two doubles of one integer part have remainders in their order. -/
theorem fractionPart_mono (hx : InRange x) (hy : InRange y)
    (h : Int.fract (valueOf x) < Int.fract (valueOf y)) :
    (fractionPart x).toInt ≤ (fractionPart y).toInt := by
  have hremainder := (rounds_remainder hx).nearest.mono (rounds_remainder hy).nearest h
  have hfloor :
      ⌊2 ^ 63 * valueOf (remainder x) + 1 / 2⌋ ≤ ⌊2 ^ 63 * valueOf (remainder y) + 1 / 2⌋ :=
    Int.floor_mono (by linarith)
  rw [toInt_fractionPart hx, toInt_fractionPart hy]
  omega

/-- Below zero, a double whose fraction is exact is not encoded like a small one unless it is above
`-1/2`: the remainders lie on two sides of a half, which rounding does not cross. -/
theorem neg_half_le_of_fractionPart_eq (hx : InRange x) (hy : InRange y) (hsharp : Sharp x)
    (hsmall : |valueOf y| < 1 / 2) (hneg : valueOf y < 0) (hfloor : ⌊valueOf x⌋ = ⌊valueOf y⌋)
    (heq : (fractionPart x).toInt = (fractionPart y).toInt) : -1 / 2 ≤ valueOf x := by
  by_contra hlow
  rw [abs_lt] at hsmall
  have hyfloor : ⌊valueOf y⌋ = -1 := by
    rw [Int.floor_eq_iff]
    constructor <;> push_cast <;> linarith
  have hxfract : Int.fract (valueOf x) = valueOf x + 1 := by
    rw [Int.fract, hfloor, hyfloor]
    push_cast
    ring
  have hyfract : Int.fract (valueOf y) = valueOf y + 1 := by
    rw [Int.fract, hyfloor]
    push_cast
    ring
  have hge := le_fractionPart_of_le_fract hy (c := 2 ^ (-1 : ℤ)) (n := 2 ^ 62)
    (Representable.two_zpow (by norm_num)) (by norm_num) (by norm_num) (by
      rw [hyfract]
      norm_num
      linarith)
  rw [← heq] at hge
  have hge' : ((2 ^ 62 : ℤ) : ℚ) ≤ (fractionPart x).toInt := by exact_mod_cast hge
  rw [hsharp.fractionPart_eq hx, hxfract] at hge'
  push_cast at hge'
  linarith

/-- From zero on, a double that is encoded like one below `2 ^ -11` is not above it. -/
theorem le_two_zpow_of_fractionPart_eq (hx : InRange x) (hy : InRange y) (hpos : 0 ≤ valueOf x)
    (htiny : valueOf x < 2 ^ (-11 : ℤ)) (hfloor : ⌊valueOf x⌋ = ⌊valueOf y⌋)
    (heq : (fractionPart x).toInt = (fractionPart y).toInt) : valueOf y ≤ 2 ^ (-11 : ℤ) := by
  by_contra hhigh
  have hone : (2 : ℚ) ^ (-11 : ℤ) ≤ 1 := by norm_num
  have hxfloor : ⌊valueOf x⌋ = 0 := by
    rw [Int.floor_eq_iff]
    constructor <;> push_cast <;> linarith
  have hxfract : Int.fract (valueOf x) = valueOf x := by
    rw [Int.fract, hxfloor, Int.cast_zero, sub_zero]
  have hyfract : Int.fract (valueOf y) = valueOf y := by
    rw [Int.fract, ← hfloor, hxfloor, Int.cast_zero, sub_zero]
  have hle := fractionPart_le_of_fract_le hx (c := 2 ^ (-11 : ℤ)) (n := 2 ^ 52)
    (Representable.two_zpow (by norm_num)) (by norm_num) (by
      rw [hxfract]
      exact htiny.le)
  rw [heq] at hle
  have hle' : ((fractionPart y).toInt : ℚ) ≤ ((2 ^ 52 : ℤ) : ℚ) := by exact_mod_cast hle
  rw [(sharp_of_le (not_le.1 hhigh).le).fractionPart_eq hy, hyfract] at hle'
  norm_num at hle' hhigh
  linarith

/-- **Where doubles are encoded alike.** -/
theorem valueOf_of_fractionPart_eq (hx : InRange x) (hy : InRange y) (h : valueOf x < valueOf y)
    (hfloor : ⌊valueOf x⌋ = ⌊valueOf y⌋) (heq : (fractionPart x).toInt = (fractionPart y).toInt) :
    -1 / 2 ≤ valueOf x ∧ valueOf y < 0 ∨ 0 ≤ valueOf x ∧ valueOf y ≤ 2 ^ (-11 : ℤ) := by
  -- the two doubles lie between the same integers, so on one side of zero
  have hzero : 0 ≤ valueOf x ↔ 0 ≤ valueOf y := by
    rw [← Int.floor_nonneg, hfloor, Int.floor_nonneg]
  by_cases hxsharp : Sharp x
  · by_cases hysharp : Sharp y
    · -- two exact fractions differ as the doubles do
      have hcast : ((fractionPart x).toInt : ℚ) = (fractionPart y).toInt := by rw [heq]
      rw [hxsharp.fractionPart_eq hx, hysharp.fractionPart_eq hy, Int.fract, Int.fract, hfloor]
        at hcast
      linarith
    · have hysmall : |valueOf y| < 1 / 2 := not_le.1 (mt sharp_of_half_le hysharp)
      have hytiny : valueOf y < 2 ^ (-11 : ℤ) := not_le.1 (mt sharp_of_le hysharp)
      rcases le_or_gt 0 (valueOf y) with hpos | hneg
      · exact Or.inr ⟨hzero.2 hpos, hytiny.le⟩
      · exact Or.inl
          ⟨neg_half_le_of_fractionPart_eq hx hy hxsharp hysmall hneg hfloor heq, hneg⟩
  · have hxsmall : |valueOf x| < 1 / 2 := not_le.1 (mt sharp_of_half_le hxsharp)
    have hxtiny : valueOf x < 2 ^ (-11 : ℤ) := not_le.1 (mt sharp_of_le hxsharp)
    rw [abs_lt] at hxsmall
    rcases le_or_gt 0 (valueOf x) with hpos | hneg
    · exact Or.inr ⟨hpos, le_two_zpow_of_fractionPart_eq hx hy hpos hxtiny hfloor heq⟩
    · exact Or.inl ⟨by linarith, lt_of_not_ge (mt hzero.2 (not_le.2 hneg))⟩

/-- Both zeros are encoded alike. -/
theorem encode_of_valueOf_eq_zero (hx : InRange x) (h : valueOf x = 0) :
    encode (.float x) = encodeInt 0 ++ Bytes.ofWord 0 := by
  have hfract : Int.fract (valueOf x) = 0 := by rw [h, Int.fract_zero]
  have hwhole : wholePart x = 0 := by
    rw [← Int64.toInt_inj, toInt_wholePart hx, h, Int.floor_zero]
    rfl
  have hle := fractionPart_le_of_fract_le hx (n := 0) Representable.zero (by simp) hfract.le
  have hfraction : fractionPart x = 0 := by
    rw [← Int64.toInt_inj]
    exact le_antisymm hle (fractionPart_nonneg hx)
  rw [encode_float hx, encodeFloat, hwhole, hfraction]
  rfl

/-! ### Numbers in their order -/

/-- **The order of encoded numbers.**  Integers are encoded in their order.  A double of their range
comes before an integer exactly if it is less, and behind it otherwise.  Two doubles are encoded in
their order, and alike only if both lie in `[-1/2, 0)` or both in `[0, 2 ^ -11]`.  The two zeros are
encoded alike. -/
theorem encode_order :
    (∀ i j : Int64, encode (.int i) < encode (.int j) ↔ i < j) ∧
    (∀ (i : Int64) (x : Float), InRange x →
      (encode (.float x) < encode (.int i) ↔ valueOf x < i.toInt) ∧
      (encode (.int i) < encode (.float x) ↔ i.toInt ≤ valueOf x)) ∧
    (∀ x y : Float, InRange x → InRange y → valueOf x < valueOf y →
      encode (.float x) ≤ encode (.float y) ∧
      (encode (.float x) = encode (.float y) →
        (∀ z ∈ [x, y], -1 / 2 ≤ valueOf z ∧ valueOf z < 0) ∨
          ∀ z ∈ [x, y], 0 ≤ valueOf z ∧ valueOf z ≤ 2 ^ (-11 : ℤ))) ∧
    encode (.float (-0.0)) = encode (.float 0.0) := by
  refine ⟨?_, ?_, ?_, ?_⟩
  · intro i j
    rw [encode_int_lt_int_iff, Int64.lt_iff_toInt_lt]
  · intro i x hx
    -- the integer part is cut off at the greatest integer, which no integer is above
    have hi : i.toInt ≤ 2 ^ 63 - 1 := Int.le_sub_one_of_lt i.toInt_lt
    have hlt : min ⌊valueOf x⌋ (2 ^ 63 - 1) < i.toInt ↔ ⌊valueOf x⌋ < i.toInt := by omega
    rw [encode_float_lt_int_iff hx, encode_int_lt_float_iff hx, ← not_lt (b := i.toInt),
      toInt_wholePart hx, hlt, Int.floor_lt, not_lt]
    exact ⟨Iff.rfl, Iff.rfl⟩
  · intro x y hx hy h
    have hlt := encode_float_lt_float_iff hx hy
    have hgt := encode_float_lt_float_iff hy hx
    rcases wholePart_mono hx hy h with hwhole | ⟨hwhole, hfloor⟩
    · have hless := hlt.2 (Or.inl hwhole)
      exact ⟨hless.le, fun heq => absurd hless (by rw [heq]; exact lt_irrefl _)⟩
    · -- of equal integer parts the fractions decide, and they are rounded in their order
      have hfract : Int.fract (valueOf x) < Int.fract (valueOf y) := by
        rw [Int.fract, Int.fract, hfloor]
        linarith
      have hmono := fractionPart_mono hx hy hfract
      refine ⟨not_lt.1 fun hless => ?_, fun heq => ?_⟩
      · have := hgt.1 hless
        omega
      · have hfraction : (fractionPart x).toInt = (fractionPart y).toInt := by
          by_contra hne
          exact absurd (hlt.2 (Or.inr ⟨hwhole, by omega⟩)) (by rw [heq]; exact lt_irrefl _)
        simp only [List.forall_mem_cons, List.not_mem_nil, false_imp_iff, implies_true, and_true]
        rcases valueOf_of_fractionPart_eq hx hy h hfloor hfraction with ⟨h₁, h₂⟩ | ⟨h₁, h₂⟩
        · exact Or.inl ⟨⟨h₁, h.trans h₂⟩, h₁.trans h.le, h₂⟩
        · exact Or.inr ⟨⟨h₁, h.le.trans h₂⟩, h₁.trans h.le, h₂⟩
  · have hzero : reading 0.0 = .finite false 0 (-1074) := by decide
    have hnegative : reading (-0.0) = .finite true 0 (-1074) := by decide
    have hexact : ∀ (x : Float) (negative : Bool), reading x = .finite negative 0 (-1074) →
        InRange x ∧ valueOf x = 0 := by
      intro x negative hx
      have hx0 : valueOf x = 0 := by
        rw [valueOf, hx]
        cases negative <;> simp [Reading.value, signed]
      exact ⟨⟨by rw [IsFinite, hx]; trivial, by rw [hx0]; norm_num, by rw [hx0]; norm_num⟩, hx0⟩
    obtain ⟨h₁, h₁'⟩ := hexact _ _ hzero
    obtain ⟨h₂, h₂'⟩ := hexact _ _ hnegative
    rw [encode_of_valueOf_eq_zero h₁ h₁', encode_of_valueOf_eq_zero h₂ h₂']

/-- A half lies between zero and one. -/
theorem encode_half_between :
    encode (.int 0) < encode (.float 0.5) ∧ encode (.float 0.5) < encode (.int 1) := by
  have hreading : reading 0.5 = .finite false (2 ^ 52) (-53) := by decide
  have hvalue : valueOf 0.5 = 1 / 2 := by
    rw [valueOf, hreading]
    norm_num [Reading.value, signed]
  have hrange : InRange 0.5 :=
    ⟨by rw [IsFinite, hreading]; trivial, by rw [hvalue]; norm_num, by rw [hvalue]; norm_num⟩
  refine ⟨((encode_order.2.1 0 0.5 hrange).2).2 ?_, ((encode_order.2.1 1 0.5 hrange).1).2 ?_⟩
  · rw [hvalue, show Int64.toInt 0 = 0 from rfl]
    norm_num
  · rw [hvalue, show Int64.toInt 1 = 1 from rfl]
    norm_num

end Strata.Codec.FixedPoint
