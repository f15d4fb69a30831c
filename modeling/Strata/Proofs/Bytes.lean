/-
**The order of byte strings, and what they spell.**

Byte strings are linearly ordered, from the left.  Two strings with heads of the same length are
ordered by their heads, and by what follows if these are equal; big-endian words are ordered as the
numbers that they spell.  Words and texts are read back from their bytes.

* `Bytes.append_lt_append_iff` — heads of the same length;
* `Bytes.ofNat_lt_ofNat_iff`, `Bytes.ofWord_lt_ofWord_iff` — **words are ordered as numbers**;
* `Bytes.toNat_ofNat`, `Bytes.ofNat_toNat`, `Bytes.toWord_ofWord`, `Bytes.text?_ofText` — reading
  back.
-/

import Mathlib.Data.List.Lex
import Mathlib.Tactic.Linarith
import Mathlib.Tactic.Order
import Mathlib.Tactic.Ring
import Strata.Bytes

set_option relaxedAutoImplicit false
set_option autoImplicit false

namespace Strata

/-- Bytes are ordered as the numbers they are; with this, byte strings are ordered from the left. -/
instance linearOrderUInt8 : LinearOrder UInt8 where
  le_refl := UInt8.le_refl
  le_trans _ _ _ := UInt8.le_trans
  le_antisymm _ _ := UInt8.le_antisymm
  le_total := UInt8.le_total
  lt_iff_le_not_ge a b := by
    rw [UInt8.lt_iff_toNat_lt, UInt8.le_iff_toNat_le, UInt8.le_iff_toNat_le]
    omega
  toDecidableLE := inferInstance
  toDecidableLT := inferInstance
  toDecidableEq := inferInstance

namespace Bytes

/-- Behind heads of the same length what follows is compared only if the heads are equal. -/
theorem append_lt_append_iff {a b x y : Bytes} (h : a.length = b.length) :
    a ++ x < b ++ y ↔ a < b ∨ a = b ∧ x < y := by
  induction a generalizing b with
  | nil =>
      obtain rfl : b = [] := List.length_eq_zero_iff.1 h.symm
      simp
  | cons first a ih =>
      cases b with
      | nil => simp at h
      | cons other b =>
          simp only [List.cons_append, List.cons_lt_cons_iff, ih (Nat.succ.inj h), List.cons.injEq]
          tauto

theorem ofNat_head_lt_iff {m n : Nat} : UInt8.ofNat m < UInt8.ofNat n ↔ m % 256 < n % 256 := by
  rw [UInt8.lt_iff_toNat_lt, UInt8.toNat_ofNat', UInt8.toNat_ofNat']

theorem ofNat_head_inj {m n : Nat} : UInt8.ofNat m = UInt8.ofNat n ↔ m % 256 = n % 256 := by
  rw [← UInt8.toNat_inj, UInt8.toNat_ofNat', UInt8.toNat_ofNat']

/-- **Words are ordered as the numbers that they spell.** -/
theorem ofNat_lt_ofNat_iff (width m n : Nat) :
    ofNat width m < ofNat width n ↔ m % 256 ^ width < n % 256 ^ width := by
  induction width with
  | zero => simp [Nat.mod_one]
  | succ width ih =>
      have hm : m % 256 ^ width < 256 ^ width := Nat.mod_lt _ (Nat.pow_pos (by decide))
      have hn : n % 256 ^ width < 256 ^ width := Nat.mod_lt _ (Nat.pow_pos (by decide))
      rw [ofNat_succ, ofNat_succ, List.cons_lt_cons_iff, ofNat_head_lt_iff, ofNat_head_inj, ih,
        Nat.mod_pow_succ, Nat.mod_pow_succ]
      -- with names for the digits and the place value, the rest is about numbers
      generalize m / 256 ^ width % 256 = a
      generalize n / 256 ^ width % 256 = b
      generalize m % 256 ^ width = c at *
      generalize n % 256 ^ width = d at *
      generalize 256 ^ width = w at *
      constructor
      · rintro (hlt | ⟨rfl, hlt⟩)
        · have : w * (a + 1) ≤ w * b := Nat.mul_le_mul_left w hlt
          rw [Nat.mul_succ] at this
          omega
        · omega
      · intro hlt
        rcases Nat.lt_trichotomy a b with h | rfl | h
        · exact Or.inl h
        · exact Or.inr ⟨rfl, by omega⟩
        · have : w * (b + 1) ≤ w * a := Nat.mul_le_mul_left w h
          rw [Nat.mul_succ] at this
          omega

theorem ofWord_lt_ofWord_iff (a b : UInt64) : ofWord a < ofWord b ↔ a.toNat < b.toNat := by
  have ha : a.toNat < 256 ^ 8 := a.toNat_lt
  have hb : b.toNat < 256 ^ 8 := b.toNat_lt
  rw [ofWord, ofWord, ofNat_lt_ofNat_iff, Nat.mod_eq_of_lt ha, Nat.mod_eq_of_lt hb]

theorem ofWord_inj {a b : UInt64} : ofWord a = ofWord b ↔ a.toNat = b.toNat := by
  constructor
  · intro h
    have hab : ¬ ofWord a < ofWord b := by rw [h]; exact lt_irrefl _
    have hba : ¬ ofWord b < ofWord a := by rw [h]; exact lt_irrefl _
    rw [ofWord_lt_ofWord_iff] at hab hba
    omega
  · intro h
    rw [UInt64.toNat_inj.1 h]

/-! ### Reading back -/

theorem foldl_digits (start : Nat) (bytes : Bytes) :
    bytes.foldl (fun n byte => n * 256 + byte.toNat) start =
      start * 256 ^ bytes.length + toNat bytes := by
  induction bytes generalizing start with
  | nil => simp
  | cons byte bytes ih =>
      rw [toNat, List.foldl_cons, List.foldl_cons, ih, ih (0 * 256 + byte.toNat), List.length_cons,
        Nat.pow_succ]
      ring

theorem toNat_cons (byte : UInt8) (bytes : Bytes) :
    toNat (byte :: bytes) = byte.toNat * 256 ^ bytes.length + toNat bytes := by
  rw [toNat, List.foldl_cons, foldl_digits, Nat.zero_mul, Nat.zero_add]

/-- A number is read back from its digits, reduced to the width that holds them. -/
theorem toNat_ofNat (width n : Nat) : toNat (ofNat width n) = n % 256 ^ width := by
  induction width with
  | zero => simp [Nat.mod_one]
  | succ width ih =>
      have hhead : (UInt8.ofNat (n / 256 ^ width)).toNat = n / 256 ^ width % 256 :=
        UInt8.toNat_ofNat'
      have hsplit : n % 256 ^ (width + 1) =
          n % 256 ^ width + 256 ^ width * (n / 256 ^ width % 256) := Nat.mod_pow_succ
      rw [ofNat_succ, toNat_cons, length_ofNat, ih, hhead, hsplit]
      ring

theorem toNat_lt (bytes : Bytes) : toNat bytes < 256 ^ bytes.length := by
  induction bytes with
  | nil => simp
  | cons byte bytes ih =>
      have hbyte : byte.toNat < 256 := byte.toNat_lt
      rw [toNat_cons, List.length_cons, Nat.pow_succ]
      nlinarith

/-- Whatever exceeds a width is left out of the word. -/
theorem ofNat_add_mul (width m n : Nat) :
    ofNat width (m * 256 ^ width + n) = ofNat width n := by
  induction width generalizing m with
  | zero => rfl
  | succ width ih =>
      have hpos : 0 < 256 ^ width := Nat.pow_pos (by decide)
      have hdigit : (m * 256 ^ (width + 1) + n) / 256 ^ width = 256 * m + n / 256 ^ width := by
        rw [pow_succ, show m * (256 ^ width * 256) + n = n + 256 ^ width * (256 * m) by ring,
          Nat.add_mul_div_left _ _ hpos]
        omega
      have hhead : (256 * m + n / 256 ^ width) % 256 = n / 256 ^ width % 256 := by omega
      rw [ofNat_succ, ofNat_succ, hdigit, pow_succ, mul_comm (256 ^ width), ← mul_assoc, ih,
        ofNat_head_inj.2 hhead]

/-- Bytes are the word of the number that they spell. -/
theorem ofNat_toNat (bytes : Bytes) : ofNat bytes.length (toNat bytes) = bytes := by
  induction bytes with
  | nil => rfl
  | cons byte bytes ih =>
      have hpos : 0 < 256 ^ bytes.length := Nat.pow_pos (by decide)
      have hhead : (byte.toNat * 256 ^ bytes.length + toNat bytes) / 256 ^ bytes.length =
          byte.toNat := by
        rw [add_comm, Nat.add_mul_div_right _ _ hpos, Nat.div_eq_of_lt (toNat_lt bytes), zero_add]
      rw [toNat_cons, List.length_cons, ofNat_succ, hhead, ofNat_add_mul, ih, UInt8.ofNat_toNat]

@[simp] theorem toWord_ofWord (word : UInt64) : toWord (ofWord word) = word := by
  have hlt : word.toNat < 256 ^ 8 := word.toNat_lt
  rw [toWord, ofWord, toNat_ofNat, Nat.mod_eq_of_lt hlt, UInt64.ofNat_toNat]

/-- **A text is read back from its UTF-8 form.** -/
@[simp] theorem text?_ofText (text : String) : text? (ofText text) = some text := by
  have hbytes : (⟨(ofText text).toArray⟩ : ByteArray) = text.toByteArray := by
    simp [ofText]
  rw [text?, hbytes, String.fromUTF8?, dif_pos text.isValidUTF8]
  rfl

end Bytes

end Strata
