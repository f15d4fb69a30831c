/-
**Equal doubles.**

Doubles that compare as equal are the same double, or both are zeros.  So a finite double other than
zero is known from the number that it is.

* `eq_or_zeros_of_compare`, `eq_or_zeros_of_beq` — what equality of doubles says;
* `eq_of_valueOf_eq` — **doubles of one number**.
-/

import Strata.Proofs.Number.Arithmetic

set_option relaxedAutoImplicit false
set_option autoImplicit false

namespace Strata.Number

open Float.Model Float.Model.UnpackedFloat

/-- Forms of doubles that compare as equal are equal, or both are zeros. -/
theorem eq_or_zeros_of_compare {u v : UnpackedFloat} (h : UnpackedFloat.compare u v = some .eq) :
    u = v ∨ (∃ s, u = .zero s) ∧ ∃ t, v = .zero t := by
  cases u with
  | notANumber => cases v <;> cases h
  | infinity s =>
      cases v with
      | infinity t =>
          cases s <;> cases t <;> first | exact Or.inl rfl | cases h
      | _ => cases s <;> cases h
  | zero s =>
      cases v with
      | zero t => exact Or.inr ⟨⟨s, rfl⟩, t, rfl⟩
      | finite t n f hn => cases t <;> cases h
      | infinity t => cases t <;> cases h
      | notANumber => cases h
  | finite s m e hm =>
      cases v with
      | zero t => cases s <;> cases h
      | infinity t => cases s <;> cases t <;> cases h
      | notANumber => cases h
      | finite t n f hn =>
          have hfields : (compare e f).then (compare m n) = .eq → e = f ∧ m = n := by
            intro hthen
            rwa [Ordering.then_eq_eq, Int.compare_eq_eq, Nat.compare_eq_eq] at hthen
          cases s <;> cases t
          · obtain ⟨rfl, rfl⟩ := hfields (by simpa using Ordering.swap_eq_eq.1 (Option.some.inj h))
            exact Or.inl rfl
          · cases h
          · cases h
          · obtain ⟨rfl, rfl⟩ := hfields (Option.some.inj h)
            exact Or.inl rfl

variable {x y : Float}

theorem beq_iff_compare :
    (x == y) = true ↔ UnpackedFloat.compare x.toModel.unpack y.toModel.unpack = some .eq := by
  show (UnpackedFloat.compare x.toModel.unpack y.toModel.unpack == some .eq) = true ↔ _
  rw [beq_iff_eq]

/-- The form of a double is all there is of it. -/
theorem eq_of_unpack (h : x.toModel.unpack = y.toModel.unpack) : x = y := by
  have hpacked := congrArg (UnpackedFloat.pack Format.binary64) h
  rw [Float.Model.unpack, Float.Model.unpack, pack_unpack x.toModel.valid,
    pack_unpack y.toModel.valid] at hpacked
  have hbits : x.toBits = y.toBits := congrArg UInt64.ofBitVec hpacked
  rw [← ofBits_toBits x, hbits, ofBits_toBits]

theorem unpack_zero : (0 : Float).toModel.unpack = .zero .positive := by
  rfl

theorem beq_zero_of_unpack (h : ∃ s, x.toModel.unpack = .zero s) : (x == 0) = true := by
  obtain ⟨s, hs⟩ := h
  rw [beq_iff_compare, hs, unpack_zero]
  rfl

/-- **Equal doubles** are the same, or both are zeros. -/
theorem eq_or_zeros_of_beq (h : (x == y) = true) : x = y ∨ (x == 0) = true ∧ (y == 0) = true := by
  rcases eq_or_zeros_of_compare (beq_iff_compare.1 h) with heq | ⟨hx, hy⟩
  · exact Or.inl (eq_of_unpack heq)
  · exact Or.inr ⟨beq_zero_of_unpack hx, beq_zero_of_unpack hy⟩

/-- **A finite double other than zero** is known from its number. -/
theorem eq_of_valueOf_eq (hx : IsFinite x) (hy : IsFinite y) (h : valueOf x = valueOf y)
    (hne : valueOf x ≠ 0) : x = y := by
  have hcompare := compare_spec (canonical_toModel x) (canonical_toModel y) (isFinite_unpack hx)
    (isFinite_unpack hy)
  rw [← valueOf_eq, ← valueOf_eq, h, compare_eq_iff_eq.2 rfl] at hcompare
  rcases eq_or_zeros_of_compare hcompare with heq | ⟨⟨s, hs⟩, -⟩
  · exact eq_of_unpack heq
  · rw [valueOf_eq, hs, value_zero] at hne
    exact absurd rfl hne

end Strata.Number
