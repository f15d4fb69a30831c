/-
**Numbers are read back from their text.**

The text of a number is digits, with a minus and a point at most, so reading finds exactly the
digits that were written.  The zeros that padding added and the zeros that were dropped behind the
point change the digits of a decimal but not its number, and the double of a decimal is told from
its number.

* `readNatural_repr` — **whole numbers up to the limit**;
* `Decimal.exists_writtenAs`, `readMagnitude?_text` — the decimal that is read has the number of the
  one that was written;
* `readFloat_text` — **doubles that are numbers**, the two zeros included;
* `trim_text`, `trim_repr` — there is no white space to cut off.
-/

import Strata.Number.Reader
import Strata.Proofs.Number.DecimalDouble
import Strata.Text.Blank

set_option relaxedAutoImplicit false
set_option autoImplicit false

namespace Strata.Number

/-! ### Digits -/

theorem isDigit_iff {c : Char} : c.isDigit = true ↔ 48 ≤ c.toNat ∧ c.toNat ≤ 57 := by
  rw [Char.isDigit, Bool.and_eq_true, decide_eq_true_iff, decide_eq_true_iff]
  rfl

theorem digit?_of_isDigit {c : Char} (h : c.isDigit = true) : digit? c = some (c.toNat - 48) := by
  obtain ⟨hlow, hhigh⟩ := isDigit_iff.1 h
  exact if_pos ⟨hlow, hhigh⟩

/-- The digits of a number. -/
theorem forall_isDigit_repr (n : ℕ) : ∀ c ∈ (Nat.repr n).toList, c.isDigit = true := by
  intro c hc
  rw [Nat.toList_repr] at hc
  exact Nat.isDigit_of_mem_toDigits (by norm_num) (by norm_num) hc

theorem repr_ne_nil (n : ℕ) : (Nat.repr n).toList ≠ [] := by
  rw [Nat.toList_repr]
  exact Nat.toDigits_ne_nil

theorem ofDigitChars_repr (n : ℕ) : Nat.ofDigitChars 10 (Nat.repr n).toList 0 = n := by
  rw [Nat.toList_repr, Nat.ofDigitChars_ten_toDigits]

theorem foldlM_digit? {digits : List Char} (h : ∀ c ∈ digits, c.isDigit = true) (start : ℕ) :
    digits.foldlM (fun n c => (digit? c).map (n * 10 + ·)) start =
      some (Nat.ofDigitChars 10 digits start) := by
  induction digits generalizing start with
  | nil => rfl
  | cons c digits ih =>
      obtain ⟨hc, hdigits⟩ := List.forall_mem_cons.1 h
      rw [List.foldlM_cons, digit?_of_isDigit hc, Nat.ofDigitChars_cons, mul_comm 10 start]
      exact ih hdigits _

theorem readDigits?_eq {digits : List Char} (hne : digits ≠ [])
    (h : ∀ c ∈ digits, c.isDigit = true) :
    readDigits? digits = some (Nat.ofDigitChars 10 digits 0) := by
  cases digits with
  | nil => exact absurd rfl hne
  | cons c digits => exact foldlM_digit? h 0

theorem spanDigits_append {digits rest : List Char} (h : ∀ c ∈ digits, c.isDigit = true)
    (hrest : ∀ c ∈ rest.head?, digit? c = none) : spanDigits (digits ++ rest) = (digits, rest) := by
  have hdigits : ∀ c ∈ digits, (digit? c).isSome = true := fun c hc => by
    rw [digit?_of_isDigit (h c hc)]
    rfl
  have hstop : rest.takeWhile (fun c => (digit? c).isSome) = [] ∧
      rest.dropWhile (fun c => (digit? c).isSome) = rest := by
    cases rest with
    | nil => exact ⟨rfl, rfl⟩
    | cons c rest => simp [hrest c rfl]
  rw [spanDigits, List.takeWhile_append_of_pos hdigits, List.dropWhile_append_of_pos hdigits,
    hstop.1, hstop.2, List.append_nil]

/-! ### Whole numbers -/

theorem le_ofDigitChars (digits : List Char) (start : ℕ) :
    start ≤ Nat.ofDigitChars 10 digits start := by
  rw [Nat.ofDigitChars_eq_ofDigitChars_zero]
  exact (Nat.le_mul_of_pos_left start (Nat.pow_pos (by norm_num))).trans (Nat.le_add_right _ _)

/-- What stays within the limit at the end is within it all along. -/
theorem foldlM_appendDigit {limit : ℕ} {digits : List Char} (h : ∀ c ∈ digits, c.isDigit = true)
    {start : ℕ} (hlimit : Nat.ofDigitChars 10 digits start ≤ limit) :
    digits.foldlM (appendDigit limit) start = .ok (Nat.ofDigitChars 10 digits start) := by
  induction digits generalizing start with
  | nil => rfl
  | cons c digits ih =>
      obtain ⟨hc, hdigits⟩ := List.forall_mem_cons.1 h
      rw [Nat.ofDigitChars_cons] at hlimit ⊢
      have hnext : 10 * start + (c.toNat - '0'.toNat) ≤ limit :=
        (le_ofDigitChars digits _).trans hlimit
      have hstep : appendDigit limit start c = .ok (10 * start + (c.toNat - '0'.toNat)) := by
        rw [mul_comm 10 start] at hnext ⊢
        rw [appendDigit, digit?_of_isDigit hc]
        exact if_neg (not_lt.2 hnext)
      rw [List.foldlM_cons, hstep]
      exact ih hdigits hlimit

/-- **A whole number is read back.** -/
theorem readNatural_repr {limit n : ℕ} (h : n ≤ limit) :
    readNatural limit (Nat.repr n).toList = .ok n := by
  have hdigits := forall_isDigit_repr n
  have hvalue := ofDigitChars_repr n
  have hne := repr_ne_nil n
  generalize (Nat.repr n).toList = digits at *
  have hfold : digits.foldlM (appendDigit limit) 0 = _ :=
    foldlM_appendDigit hdigits (by rwa [hvalue])
  rw [hvalue] at hfold
  cases digits with
  | nil => exact absurd rfl hne
  | cons c digits =>
      have hplus : c ≠ '+' := by
        rintro rfl
        exact absurd (hdigits '+' List.mem_cons_self) (by decide)
      rw [readNatural]
      · exact hfold
      all_goals simp_all

/-! ### Decimals -/

theorem readExponent?_nil : readExponent? [] = some 0 := rfl

/-- A decimal is read from the digits around its point, which is left out where none follow. -/
theorem readDecimal?_digits {whole fraction : List Char} (hne : whole ≠ [])
    (hwhole : ∀ c ∈ whole, c.isDigit = true) (hfraction : ∀ c ∈ fraction, c.isDigit = true) :
    readDecimal? (if fraction.isEmpty then whole else whole ++ '.' :: fraction) =
      some ⟨Nat.ofDigitChars 10 (whole ++ fraction) 0, -fraction.length⟩ := by
  have hall : ∀ c ∈ whole ++ fraction, c.isDigit = true := by
    intro c hc
    exact (List.mem_append.1 hc).elim (hwhole c) (hfraction c)
  have hdigits := readDigits?_eq (List.append_ne_nil_of_left_ne_nil hne fraction) hall
  cases fraction with
  | nil =>
      have hspan : spanDigits (whole ++ []) = _ := spanDigits_append hwhole (by simp)
      rw [List.append_nil] at hspan hdigits ⊢
      simp [readDecimal?, hspan, hdigits, readExponent?_nil]
  | cons c fraction =>
      have hspan : spanDigits (whole ++ '.' :: c :: fraction) = _ :=
        spanDigits_append hwhole (by rintro _ ⟨⟩; rfl)
      have hspan' : spanDigits ((c :: fraction) ++ []) = _ := spanDigits_append hfraction (by simp)
      rw [List.append_nil] at hspan'
      simp [readDecimal?, hspan, hspan', hdigits, readExponent?_nil]

theorem exists_dropTrailingZeros (fraction : List Char) :
    ∃ k, fraction = dropTrailingZeros fraction ++ List.replicate k '0' := by
  refine ⟨(fraction.reverse.takeWhile (· == '0')).length, ?_⟩
  have hzeros : fraction.reverse.takeWhile (· == '0') =
      List.replicate (fraction.reverse.takeWhile (· == '0')).length '0' := by
    rw [List.eq_replicate_iff]
    refine ⟨rfl, ?_⟩
    intro c hc
    simpa using List.mem_takeWhile_imp hc
  rw [dropTrailingZeros, ← List.reverse_replicate, ← hzeros, ← List.reverse_append,
    List.takeWhile_append_dropWhile, List.reverse_reverse]

/-- A decimal is written with digits around its point, which is left out where none follow: they
spell its number. -/
structure Decimal.WrittenAs (d : Decimal) (whole fraction : List Char) : Prop where
  whole_ne_nil : whole ≠ []
  whole_isDigit : ∀ c ∈ whole, c.isDigit = true
  fraction_isDigit : ∀ c ∈ fraction, c.isDigit = true
  text_eq : d.text.toList = if fraction.isEmpty then whole else whole ++ '.' :: fraction
  value_eq : Decimal.value ⟨Nat.ofDigitChars 10 (whole ++ fraction) 0, -fraction.length⟩ = d.value

theorem forall_isDigit_zeros (k : ℕ) : ∀ c ∈ List.replicate k '0', c.isDigit = true := by
  intro c hc
  rw [List.eq_of_mem_replicate hc]
  rfl

/-- Zeros stand for an exponent that is not negative. -/
theorem Decimal.writtenAs_of_nonneg {d : Decimal} (h : 0 ≤ d.exponent) :
    d.WrittenAs ((Nat.repr d.digits).toList ++ List.replicate d.exponent.toNat '0') [] where
  whole_ne_nil := List.append_ne_nil_of_left_ne_nil (repr_ne_nil d.digits) _
  whole_isDigit c hc :=
    (List.mem_append.1 hc).elim (forall_isDigit_repr d.digits c) (forall_isDigit_zeros _ c)
  fraction_isDigit := by simp
  text_eq := by
    rw [Decimal.text, if_pos h]
    simp
  value_eq := by
    have hpower : (10 : ℚ) ^ d.exponent = ((10 ^ d.exponent.toNat : ℕ) : ℚ) :=
      natCast_zpow_of_nonneg 10 h
    rw [Decimal.value, Decimal.value, hpower, List.append_nil, Nat.ofDigitChars_append,
      Nat.ofDigitChars_replicate_zero, ofDigitChars_repr]
    simp [mul_comm]

/-- The digits with zeros in front of them, so that one stands before the point. -/
def Decimal.padded (d : Decimal) : List Char :=
  List.replicate ((-d.exponent).toNat + 1 - (Nat.repr d.digits).toList.length) '0' ++
    (Nat.repr d.digits).toList

/-- How many of them stand before the point. -/
def Decimal.pointAt (d : Decimal) : ℕ := d.padded.length - (-d.exponent).toNat

theorem Decimal.places_lt_length_padded (d : Decimal) :
    (-d.exponent).toNat < d.padded.length := by
  rw [Decimal.padded, List.length_append, List.length_replicate]
  omega

theorem Decimal.forall_isDigit_padded (d : Decimal) : ∀ c ∈ d.padded, c.isDigit = true := by
  intro c hc
  exact (List.mem_append.1 hc).elim (forall_isDigit_zeros _ c) (forall_isDigit_repr d.digits c)

theorem Decimal.ofDigitChars_padded (d : Decimal) : Nat.ofDigitChars 10 d.padded 0 = d.digits := by
  rw [Decimal.padded, Nat.ofDigitChars_append, Nat.ofDigitChars_replicate_zero, mul_zero,
    ofDigitChars_repr]

/-- The zeros at the end are dropped behind the point of a negative exponent. -/
theorem Decimal.writtenAs_of_neg {d : Decimal} (h : ¬ 0 ≤ d.exponent) :
    d.WrittenAs (d.padded.take d.pointAt) (dropTrailingZeros (d.padded.drop d.pointAt)) := by
  have hplaces := d.places_lt_length_padded
  obtain ⟨k, hk⟩ := exists_dropTrailingZeros (d.padded.drop d.pointAt)
  refine ⟨?_, ?_, ?_, ?_, ?_⟩
  · rw [← List.length_pos_iff, List.length_take, Decimal.pointAt]
    omega
  · exact fun c hc => d.forall_isDigit_padded c (List.mem_of_mem_take hc)
  · intro c hc
    refine d.forall_isDigit_padded c (List.mem_of_mem_drop (i := d.pointAt) ?_)
    rw [hk]
    exact List.mem_append_left _ hc
  · rw [Decimal.text, if_neg h]
    simp [Decimal.padded, Decimal.pointAt]
  · have hsplit := List.take_append_drop d.pointAt d.padded
    rw [hk, ← List.append_assoc] at hsplit
    have hnumber := d.ofDigitChars_padded
    rw [← hsplit, Nat.ofDigitChars_append, Nat.ofDigitChars_replicate_zero] at hnumber
    have hcount := congrArg List.length hk
    rw [List.length_drop, List.length_append, List.length_replicate, Decimal.pointAt] at hcount
    have hexponent : d.exponent =
        -((dropTrailingZeros (d.padded.drop d.pointAt)).length : ℤ) + -(k : ℤ) := by
      rw [Decimal.pointAt]
      omega
    rw [Decimal.value, Decimal.value, ← hnumber, hexponent, zpow_add₀ (by norm_num),
      zpow_neg _ (k : ℤ), zpow_natCast, Nat.cast_mul, Nat.cast_pow]
    field_simp
    simp

/-- **The digits of a decimal** around its point. -/
theorem Decimal.exists_writtenAs (d : Decimal) :
    ∃ whole fraction : List Char, d.WrittenAs whole fraction := by
  by_cases h : 0 ≤ d.exponent
  · exact ⟨_, _, Decimal.writtenAs_of_nonneg h⟩
  · exact ⟨_, _, Decimal.writtenAs_of_neg h⟩

/-- **The text of a decimal is read as its double.** -/
theorem readMagnitude?_text {d : Decimal} (hd : 0 < d.digits) (he : d.exponent ≤ 2 ^ 11) :
    readMagnitude? d.text.toList = some d.toFloat := by
  obtain ⟨whole, fraction, h⟩ := d.exists_writtenAs
  have hpos := Decimal.value_pos hd
  rw [← h.value_eq] at hpos
  have hdigits : 0 < Nat.ofDigitChars 10 (whole ++ fraction) 0 := by
    rw [Nat.pos_iff_ne_zero]
    intro hzero
    rw [Decimal.value, hzero, Nat.cast_zero, zero_mul] at hpos
    exact absurd hpos (lt_irrefl _)
  have hexponent : (-fraction.length : ℤ) ≤ 2 ^ 11 := by omega
  rw [readMagnitude?, h.text_eq,
    readDecimal?_digits h.whole_ne_nil h.whole_isDigit h.fraction_isDigit]
  exact congrArg some (toFloat_congr hdigits hexponent hd he h.value_eq)

/-! ### Doubles -/

variable {x y : Float}

theorem readFloat_of_digit {c : Char} {rest : List Char} (hc : c.isDigit = true)
    (h : readMagnitude? (c :: rest) = some y) : readFloat (c :: rest) = .ok y := by
  have hplus : c ≠ '+' := by
    rintro rfl
    exact absurd hc (by decide)
  have hminus : c ≠ '-' := by
    rintro rfl
    exact absurd hc (by decide)
  simp [readFloat, hplus, hminus, h]

theorem readFloat_minus {text : List Char} (h : readMagnitude? text = some y) :
    readFloat ('-' :: text) = .ok (-y) := by
  simp [readFloat, h]

/-- What stands behind the sign of a double. -/
def magnitudeText (mantissa : ℕ) (exponent : ℤ) : String :=
  if mantissa = 0 then "0" else (shortest mantissa exponent).text

theorem text_eq {negative : Bool} {m : ℕ} {e : ℤ} (h : reading x = .finite negative m e) :
    (text x).toList = (if negative then ['-'] else []) ++ (magnitudeText m e).toList := by
  rw [text, h, magnitudeText]
  cases negative <;> simp

theorem magnitudeText_head (m : ℕ) (e : ℤ) :
    ∃ c rest, (magnitudeText m e).toList = c :: rest ∧ c.isDigit = true := by
  rw [magnitudeText]
  split
  · exact ⟨'0', [], by simp, rfl⟩
  · obtain ⟨whole, fraction, h⟩ := (shortest m e).exists_writtenAs
    obtain ⟨c, rest, rfl⟩ := List.exists_cons_of_ne_nil h.whole_ne_nil
    refine ⟨c, if fraction.isEmpty then rest else rest ++ '.' :: fraction, ?_,
      h.whole_isDigit c List.mem_cons_self⟩
    rw [h.text_eq]
    split <;> rfl

/-- With a magnitude that is read, a signed text is. -/
theorem readFloat_text_of {negative : Bool} {m : ℕ} {e : ℤ}
    (h : reading x = .finite negative m e)
    (hread : readMagnitude? (magnitudeText m e).toList = some y)
    (hx : (if negative then -y else y) = x) : readFloat (text x).toList = .ok x := by
  obtain ⟨c, rest, hhead, hc⟩ := magnitudeText_head m e
  rw [text_eq h, ← hx]
  cases negative with
  | true => exact readFloat_minus hread
  | false =>
      rw [hhead] at hread ⊢
      exact readFloat_of_digit hc hread

/-- **A double that is a number is read back from its text**, a zero with its sign. -/
theorem readFloat_text (h : IsFinite x) : readFloat (text x).toList = .ok x := by
  have hform := isFinite_unpack h
  have hbounds : Canonical x.toModel.unpack ∧ Fits x.toModel.unpack := canonical_unpack _
  have hreading := reading_eq x
  cases hu : x.toModel.unpack with
  | notANumber => rw [hu] at hform; cases hform
  | infinity s => rw [hu] at hform; cases hform
  | zero s =>
      rw [hu] at hreading
      refine readFloat_text_of (y := Float.ofNat 0) hreading rfl ?_
      refine eq_of_unpack ?_
      rw [hu]
      cases s <;> rfl
  | finite s m e hm =>
      rw [hu] at hreading hbounds
      have hcanonical : Canonical (.finite .positive m e hm) := hbounds.1
      have hfits : Fits (.finite .positive m e hm) := hbounds.2
      obtain ⟨hdigits, hexponent, hdouble⟩ := shortest_spec hcanonical hfits
      have hmagnitude := reading_ofForm hcanonical hfits
      have hfinite : IsFinite (ofForm (.finite .positive m e hm)) := by
        rw [IsFinite, hmagnitude]
        trivial
      have hvalue : valueOf (ofForm (.finite .positive m e hm)) = m * 2 ^ e := by
        rw [valueOf, hmagnitude]
        rfl
      have hne : (m : ℚ) * 2 ^ e ≠ 0 := by positivity
      refine readFloat_text_of (y := ofForm (.finite .positive m e hm)) hreading ?_ ?_
      · rw [magnitudeText, if_neg hm.ne', readMagnitude?_text hdigits hexponent, hdouble]
      · cases s with
        | positive =>
            show ofForm _ = x
            refine eq_of_valueOf_eq hfinite h ?_ (by rwa [hvalue])
            rw [hvalue, valueOf, hreading]
            rfl
        | negative =>
            show -ofForm _ = x
            refine eq_of_valueOf_eq (isFinite_neg hfinite) h ?_ ?_
            · rw [valueOf_neg, hvalue, valueOf, hreading]
              simp [readingOf, isNegative, Reading.value, signed]
            · rwa [valueOf_neg, hvalue, neg_ne_zero]

/-! ### White space -/

theorem not_isBlank_of_isDigit {c : Char} (h : c.isDigit = true) : Text.isBlank c = false := by
  obtain ⟨hlow, hhigh⟩ := isDigit_iff.1 h
  simp [Text.isBlank, Text.blankRanges]
  omega

theorem trim_eq_self {text : List Char} (h : ∀ c ∈ text, Text.isBlank c = false) :
    Text.trim text = text := by
  have hdrop : ∀ text : List Char, (∀ c ∈ text, Text.isBlank c = false) →
      text.dropWhile Text.isBlank = text := by
    intro text h
    cases text with
    | nil => rfl
    | cons c text => rw [List.dropWhile_cons_of_neg (by simp [h c List.mem_cons_self])]
  rw [Text.trim, hdrop text h, hdrop text.reverse (fun c hc => h c (List.mem_reverse.1 hc)),
    List.reverse_reverse]

/-- A whole number has no white space around it. -/
theorem trim_repr (n : ℕ) : Text.trim (Nat.repr n).toList = (Nat.repr n).toList :=
  trim_eq_self fun c hc => not_isBlank_of_isDigit (forall_isDigit_repr n c hc)

/-- A double that is a number has no white space around it. -/
theorem trim_text (h : IsFinite x) : Text.trim (text x).toList = (text x).toList := by
  rw [IsFinite] at h
  cases hreading : reading x with
  | infinite negative => rw [hreading] at h; cases h
  | notANumber => rw [hreading] at h; cases h
  | finite negative m e =>
      refine trim_eq_self ?_
      rw [text_eq hreading, magnitudeText]
      intro c hc
      rcases List.mem_append.1 hc with hsign | hc
      · cases negative with
        | false => cases hsign
        | true =>
            rw [List.mem_singleton.1 hsign]
            decide
      · split at hc
        · obtain rfl : c = '0' := by simpa using hc
          decide
        · obtain ⟨whole, fraction, hdigits⟩ := (shortest m e).exists_writtenAs
          rw [hdigits.text_eq] at hc
          split at hc
          · exact not_isBlank_of_isDigit (hdigits.whole_isDigit c hc)
          · rcases List.mem_append.1 hc with hc | hc
            · exact not_isBlank_of_isDigit (hdigits.whole_isDigit c hc)
            · rcases List.mem_cons.1 hc with rfl | hc
              · decide
              · exact not_isBlank_of_isDigit (hdigits.fraction_isDigit c hc)

end Strata.Number
