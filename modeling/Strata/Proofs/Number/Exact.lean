/-
**The number that a double is.**

A double is read as a rational number: a signed mantissa times a power of two, or zero if it is no
finite number.  The arithmetic of doubles works on an unpacked form, in which the same three fields
stand; here the two are shown to agree, and packing to lose nothing of a form that fits.

* `Reading.value`, `valueOf`, `IsFinite` — the number;
* `reading_eq` — the fields of a double are those of its unpacked form;
* `Canonical`, `Fits`, `canonical_unpack` — the forms that doubles have;
* `readingOf_unpack_pack`, `pack_unpack` — **packing loses nothing**, nor does unpacking;
* `ofBits_toBits` — doubles are their words.
-/

import Mathlib
import Strata.Number.Binary

set_option relaxedAutoImplicit false
set_option autoImplicit false

namespace Strata.Number

open Float.Model Float.Model.UnpackedFloat

/-! ### Numbers -/

/-- The number that is read, or zero if it is not finite. -/
def Reading.value : Reading → ℚ
  | .finite negative mantissa exponent => signed negative mantissa * 2 ^ exponent
  | _ => 0

/-- A number is read. -/
def Reading.IsFinite : Reading → Prop
  | .finite .. => True
  | _ => False

/-- The number that a double is, or zero if it is none. -/
def valueOf (x : Float) : ℚ := (reading x).value

/-- The double is a number. -/
def IsFinite (x : Float) : Prop := (reading x).IsFinite

/-! ### Unpacked forms -/

/-- The sign is a minus. -/
def isNegative : Sign → Bool
  | .negative => true
  | .positive => false

/-- The fields of an unpacked form. -/
def readingOf : UnpackedFloat → Reading
  | .notANumber => .notANumber
  | .infinity s => .infinite (isNegative s)
  | .zero s => .finite (isNegative s) 0 (-1074)
  | .finite s m e _ => .finite (isNegative s) m e

theorem toNat_unpackMantissa (b : BitVec Format.binary64.numBits) :
    (unpackMantissa b).toNat = b.toNat % 2 ^ 52 := by
  simp [unpackMantissa, BitVec.extractLsb]

theorem toNat_unpackExponent (b : BitVec Format.binary64.numBits) :
    (unpackExponent b).toNat = b.toNat / 2 ^ 52 % 2 ^ 11 := by
  simp [unpackExponent, BitVec.extractLsb, Nat.shiftRight_eq_div_pow]

theorem toNat_unpackSign (b : BitVec Format.binary64.numBits) :
    (unpackSign b).toNat = b.toNat / 2 ^ 63 := by
  have hlt : b.toNat < 2 ^ 64 := b.isLt
  simp only [unpackSign, BitVec.extractLsb, Nat.shiftRight_eq_div_pow, BitVec.toNat_cast,
    BitVec.extractLsb'_toNat]
  show b.toNat / 2 ^ 63 % 2 ^ 1 = _
  omega

theorem isNegative_ofBitVec (b : BitVec 1) :
    isNegative (Sign.ofBitVec b) = (b.toNat == 1) := by
  revert b; decide

/-- Unpacking reads the three fields of a word. -/
theorem readingOf_unpack (b : BitVec Format.binary64.numBits) :
    readingOf (UnpackedFloat.unpack Format.binary64 b) =
      if b.toNat / 2 ^ 52 % 2 ^ 11 = 2047 then
        if b.toNat % 2 ^ 52 = 0 then .infinite (b.toNat / 2 ^ 63 == 1) else .notANumber
      else if b.toNat / 2 ^ 52 % 2 ^ 11 = 0 then
        .finite (b.toNat / 2 ^ 63 == 1) (b.toNat % 2 ^ 52) (-1074)
      else
        .finite (b.toNat / 2 ^ 63 == 1) (2 ^ 52 + b.toNat % 2 ^ 52)
          ((b.toNat / 2 ^ 52 % 2 ^ 11 : Nat) - 1075) := by
  have hmantissa : unpackMantissa b = 0#_ ↔ b.toNat % 2 ^ 52 = 0 := by
    rw [← BitVec.toNat_inj, toNat_unpackMantissa]; rfl
  have hones : unpackExponent b = -1#_ ↔ b.toNat / 2 ^ 52 % 2 ^ 11 = 2047 := by
    rw [← BitVec.toNat_inj, toNat_unpackExponent]; rfl
  have hzero : unpackExponent b = 0#_ ↔ b.toNat / 2 ^ 52 % 2 ^ 11 = 0 := by
    rw [← BitVec.toNat_inj, toNat_unpackExponent]; rfl
  simp only [UnpackedFloat.unpack, hones, hzero, hmantissa]
  split
  · split <;> simp [readingOf, isNegative_ofBitVec, toNat_unpackSign]
  · split
    · next h =>
      split <;> simp_all [readingOf, isNegative_ofBitVec, toNat_unpackSign,
        toNat_unpackMantissa, Format.exponentBias]
    · simp only [readingOf, isNegative_ofBitVec, toNat_unpackSign, toNat_unpackExponent,
        BitVec.toNat_append, toNat_unpackMantissa, Reading.finite.injEq, true_and]
      constructor
      · have : b.toNat % 2 ^ 52 < 2 ^ 52 := Nat.mod_lt _ (by decide)
        show 1 <<< 52 ||| _ = _
        rw [← Nat.shiftLeft_add_eq_or_of_lt this]
        rfl
      · simp [Format.exponentBias]

/-- The fields of a double are those of its unpacked form. -/
theorem reading_eq (x : Float) : reading x = readingOf x.toModel.unpack := by
  rw [Float.Model.unpack, readingOf_unpack]
  rfl

theorem isFinite_iff {x : Float} : x.isFinite = true ↔ IsFinite x := by
  have hunpack : x.isFinite = x.toModel.unpack.isFinite := rfl
  rw [IsFinite, reading_eq, hunpack]
  cases x.toModel.unpack <;> simp [readingOf, Reading.IsFinite, UnpackedFloat.isFinite]

/-- A form that a double can have, apart from too great an exponent: as many digits as fit, or the
least exponent. -/
def Canonical : UnpackedFloat → Prop
  | .finite _ m e _ => m < 2 ^ 53 ∧ -1074 ≤ e ∧ (2 ^ 52 ≤ m ∨ e = -1074)
  | _ => True

/-- The exponent is not too great for a double. -/
def Fits : UnpackedFloat → Prop
  | .finite _ _ e _ => e ≤ 971
  | _ => True

theorem canonical_unpack (b : BitVec Format.binary64.numBits) :
    Canonical (UnpackedFloat.unpack Format.binary64 b) ∧
      Fits (UnpackedFloat.unpack Format.binary64 b) := by
  have h := readingOf_unpack b
  have hm : b.toNat % 2 ^ 52 < 2 ^ 52 := Nat.mod_lt _ (by decide)
  have he : b.toNat / 2 ^ 52 % 2 ^ 11 < 2 ^ 11 := Nat.mod_lt _ (by decide)
  cases hu : UnpackedFloat.unpack Format.binary64 b with
  | finite s m e hpos =>
      rw [hu, readingOf] at h
      split at h
      · split at h <;> cases h
      · split at h
        · obtain ⟨-, rfl, rfl⟩ := Reading.finite.inj h
          exact ⟨⟨by omega, le_rfl, Or.inr rfl⟩, by simp [Fits]⟩
        · obtain ⟨-, rfl, rfl⟩ := Reading.finite.inj h
          exact ⟨⟨by omega, by omega, Or.inl (by omega)⟩, by simp only [Fits]; omega⟩
  | _ => exact ⟨trivial, trivial⟩

/-- The sign bit. -/
def signWord : Sign → Nat
  | .negative => 1
  | .positive => 0

theorem toNat_packComponents (s : Sign) (e : BitVec 11) (m : BitVec 52) :
    (packComponents Format.binary64 s e m).toNat =
      signWord s * 2 ^ 63 + e.toNat * 2 ^ 52 + m.toNat := by
  have he : e.toNat < 2 ^ 11 := e.isLt
  have hm : m.toNat < 2 ^ 52 := m.isLt
  simp only [packComponents, BitVec.toNat_append]
  rw [← Nat.shiftLeft_add_eq_or_of_lt he, ← Nat.shiftLeft_add_eq_or_of_lt hm,
    Nat.shiftLeft_eq, Nat.shiftLeft_eq]
  cases s
  · show (1 * 2 ^ 11 + e.toNat) * 2 ^ 52 + m.toNat = 1 * 2 ^ 63 + _ + _
    omega
  · show (0 * 2 ^ 11 + e.toNat) * 2 ^ 52 + m.toNat = 0 * 2 ^ 63 + _ + _
    omega

/-- The word of a finite form. -/
theorem toNat_pack_finite {s : Sign} {m : Nat} {e : Int} {hpos : 0 < m}
    (hcanonical : Canonical (.finite s m e hpos)) (hfits : Fits (.finite s m e hpos)) :
    (UnpackedFloat.pack Format.binary64 (.finite s m e hpos)).toNat =
      signWord s * 2 ^ 63 +
        if 2 ^ 52 ≤ m then (e + 1075).toNat * 2 ^ 52 + (m - 2 ^ 52) else m := by
  obtain ⟨hm, he, hnormal⟩ := hcanonical
  simp only [Fits] at hfits
  have hexp : e + (Format.binary64.exponentBias : Int) +
      (Format.binary64.mantissaBitsWithoutImplicit : Int) = e + 1075 := by
    simp [Format.exponentBias]
    omega
  have hbits : ¬ 2 ^ Format.binary64.exponentBits ≤ (e + 1075).toNat + 1 := by
    show ¬ 2 ^ 11 ≤ _
    omega
  rw [UnpackedFloat.pack]
  simp only [hexp, if_neg hbits]
  by_cases hlarge : 2 ^ 52 ≤ m
  · -- the leading digit is left out of the word
    have hlog : m.log2 = 52 := (Nat.log2_eq_iff (by omega)).2 ⟨hlarge, hm⟩
    rw [if_pos (by rw [hlog]; rfl), if_pos hlarge, toNat_packComponents, BitVec.toNat_ofNat,
      BitVec.toNat_ofNat, Nat.mod_eq_of_lt (by omega), show m % 2 ^ 52 = m - 2 ^ 52 by omega]
    omega
  · have hlog : m.log2 < 52 := (Nat.log2_lt (by omega)).2 (by omega)
    have hno : ¬ m.log2 + 1 = Format.binary64.mantissaBits := by
      show ¬ m.log2 + 1 = 53
      omega
    rw [if_neg hno, if_neg hlarge, toNat_packComponents, BitVec.toNat_ofNat, BitVec.toNat_ofNat,
      Nat.mod_eq_of_lt (by omega : m < 2 ^ 52)]
    simp

/-- The fields of a word that is put together from them. -/
theorem fields_eq (sign : Nat) {e f : Nat} (he : e < 2 ^ 11) (hf : f < 2 ^ 52) :
    (sign * 2 ^ 63 + e * 2 ^ 52 + f) / 2 ^ 63 = sign ∧
      (sign * 2 ^ 63 + e * 2 ^ 52 + f) / 2 ^ 52 % 2 ^ 11 = e ∧
      (sign * 2 ^ 63 + e * 2 ^ 52 + f) % 2 ^ 52 = f := by
  omega

/-- **Packing loses nothing** of a form that fits. -/
theorem readingOf_unpack_pack {u : UnpackedFloat} (hcanonical : Canonical u) (hfits : Fits u) :
    readingOf (UnpackedFloat.unpack Format.binary64 (UnpackedFloat.pack Format.binary64 u)) =
      readingOf u := by
  cases u with
  | notANumber => decide
  | infinity s => cases s <;> decide
  | zero s => cases s <;> decide
  | finite s m e hpos =>
      rw [readingOf_unpack, toNat_pack_finite hcanonical hfits]
      obtain ⟨hm, he, hnormal⟩ := hcanonical
      simp only [Fits] at hfits
      have hsign : (signWord s == 1) = isNegative s := by cases s <;> rfl
      by_cases hlarge : 2 ^ 52 ≤ m
      · obtain ⟨h₁, h₂, h₃⟩ := fields_eq (signWord s) (e := (e + 1075).toNat) (f := m - 2 ^ 52)
          (by omega) (by omega)
        simp only [if_pos hlarge, ← Nat.add_assoc, h₁, h₂, h₃, hsign, readingOf]
        have hmax : (e + 1075).toNat ≠ 2047 := by omega
        have hmin : (e + 1075).toNat ≠ 0 := by omega
        have hexponent : ((e + 1075).toNat : Int) - 1075 = e := by omega
        rw [if_neg hmax, if_neg hmin, hexponent, Nat.add_sub_cancel' hlarge]
      · obtain ⟨h₁, h₂, h₃⟩ := fields_eq (signWord s) (e := 0) (f := m) (by omega) (by omega)
        rw [Nat.zero_mul, Nat.add_zero] at h₁ h₂ h₃
        simp only [if_neg hlarge, h₁, h₂, h₃, hsign, readingOf]
        rw [if_neg (by decide), if_pos trivial, hnormal.resolve_left hlarge]

theorem signWord_eq {s : Sign} {n : Nat} (hlt : n < 2 ^ 64)
    (h : isNegative s = (n / 2 ^ 63 == 1)) : signWord s = n / 2 ^ 63 := by
  cases s <;> simp [isNegative, signWord] at h ⊢ <;> omega

/-- **Unpacking loses nothing** of a word that a double can have. -/
theorem pack_unpack {b : BitVec Format.binary64.numBits} (hvalid : Format.binary64.Valid b) :
    UnpackedFloat.pack Format.binary64 (UnpackedFloat.unpack Format.binary64 b) = b := by
  have hlt : b.toNat < 2 ^ 64 := b.isLt
  have hread := readingOf_unpack b
  obtain ⟨hcanonical, hfits⟩ := canonical_unpack b
  refine BitVec.eq_of_toNat_eq ?_
  -- in every form the fields that were read are those that are packed again
  cases hu : UnpackedFloat.unpack Format.binary64 b with
  | notANumber =>
      rw [hu, readingOf] at hread
      have hones : b.toNat / 2 ^ 52 % 2 ^ 11 = 2047 := by
        by_contra hno
        rw [if_neg hno] at hread
        split at hread <;> cases hread
      have hfraction : b.toNat % 2 ^ 52 ≠ 0 := by
        intro hzero
        rw [if_pos hones, if_pos hzero] at hread
        cases hread
      -- a double has one word only that is no number
      refine (congrArg BitVec.toNat (hvalid.eq_packedNaN ?_ ?_)).symm
      · rw [← BitVec.toNat_inj, toNat_unpackExponent]
        exact hones
      · rw [ne_eq, ← BitVec.toNat_inj, toNat_unpackMantissa]
        exact hfraction
  | infinity s =>
      have hword : (UnpackedFloat.pack Format.binary64 (.infinity s)).toNat =
          signWord s * 2 ^ 63 + 2047 * 2 ^ 52 := by cases s <;> rfl
      rw [hu, readingOf] at hread
      rw [hword]
      split at hread
      · split at hread
        · rw [signWord_eq hlt (Reading.infinite.inj hread)]
          omega
        · cases hread
      · split at hread <;> cases hread
  | zero s =>
      have hword : (UnpackedFloat.pack Format.binary64 (.zero s)).toNat = signWord s * 2 ^ 63 := by
        cases s <;> rfl
      rw [hu, readingOf] at hread
      rw [hword]
      split at hread
      · split at hread <;> cases hread
      · split at hread
        · obtain ⟨hsign, hm, -⟩ := Reading.finite.inj hread
          rw [signWord_eq hlt hsign]
          omega
        · obtain ⟨-, hm, -⟩ := Reading.finite.inj hread
          omega
  | finite s m e hpos =>
      rw [hu] at hcanonical hfits
      rw [hu, readingOf] at hread
      rw [toNat_pack_finite hcanonical hfits]
      obtain ⟨hm, he, hnormal⟩ := hcanonical
      split at hread
      · split at hread <;> cases hread
      · split at hread
        · obtain ⟨hsign, hm', he'⟩ := Reading.finite.inj hread
          rw [if_neg (by omega), signWord_eq hlt hsign]
          omega
        · obtain ⟨hsign, hm', he'⟩ := Reading.finite.inj hread
          rw [if_pos (by omega), signWord_eq hlt hsign]
          omega

/-- **A double is read back from its word.** -/
@[simp] theorem ofBits_toBits (x : Float) : Float.ofBits x.toBits = x := by
  obtain ⟨⟨bits, hvalid⟩⟩ := x
  show Float.ofModel (Float.Model.pack (UnpackedFloat.unpack Format.binary64 bits.toBitVec)) = _
  rw [Float.Model.pack]
  simp only [pack_unpack hvalid]

end Strata.Number
