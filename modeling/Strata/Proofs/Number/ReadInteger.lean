/-
**Which texts are integers.**

An integer is written as decimal digits, with a sign in front of them or none, and white space may
stand around it.  Reading takes exactly these texts, as far as 64 bits hold their integer: a text
with anything else in it is refused, and so is a sign alone.

* `Numeral`, `Spells` — integers as they are written;
* `readDigits?_eq_some_iff`, `readInt64?_eq_some_iff` — **what is read is what is written**;
* `trim_append`, `exists_trim` — white space around a text.
-/

import Strata.Proofs.Number.ReadText

set_option relaxedAutoImplicit false
set_option autoImplicit false

namespace Strata.Number

/-! ### Digits -/

/-- Decimal digits, at least one of them, and their number. -/
structure Numeral (digits : List Char) (n : ℕ) : Prop where
  ne_nil : digits ≠ []
  isDigit : ∀ c ∈ digits, c.isDigit = true
  value : Nat.ofDigitChars 10 digits 0 = n

theorem isDigit_of_digit? {c : Char} {d : ℕ} (h : digit? c = some d) : c.isDigit = true := by
  rw [digit?] at h
  split at h
  · next hc => exact isDigit_iff.2 ⟨hc.1, hc.2⟩
  · cases h

/-- What is read digit by digit has nothing but digits. -/
theorem isDigit_of_foldlM {digits : List Char} {start n : ℕ}
    (h : digits.foldlM (fun n c => (digit? c).map (n * 10 + ·)) start = some n) :
    ∀ c ∈ digits, c.isDigit = true := by
  induction digits generalizing start with
  | nil => simp
  | cons c digits ih =>
      rw [List.foldlM_cons] at h
      obtain ⟨next, hnext, hrest⟩ := Option.bind_eq_some_iff.1 h
      obtain ⟨d, hd, -⟩ := Option.map_eq_some_iff.1 hnext
      exact List.forall_mem_cons.2 ⟨isDigit_of_digit? hd, ih hrest⟩

theorem readDigits?_eq_some_iff {digits : List Char} {n : ℕ} :
    readDigits? digits = some n ↔ Numeral digits n := by
  constructor
  · intro h
    cases digits with
    | nil => cases h
    | cons c digits =>
        have hdigits := isDigit_of_foldlM h
        refine ⟨List.cons_ne_nil c digits, hdigits, ?_⟩
        rw [readDigits?_eq (List.cons_ne_nil c digits) hdigits] at h
        exact Option.some.inj h
  · rintro ⟨hne, hdigits, rfl⟩
    exact readDigits?_eq hne hdigits

/-! ### Integers -/

/-- A text is an integer, written in decimal. -/
inductive Spells : List Char → ℤ → Prop
  | plain {digits : List Char} {n : ℕ} : Numeral digits n → Spells digits n
  | plus {digits : List Char} {n : ℕ} : Numeral digits n → Spells ('+' :: digits) n
  | minus {digits : List Char} {n : ℕ} : Numeral digits n → Spells ('-' :: digits) (-n)

theorem not_numeral_cons {c : Char} (hc : c.isDigit = false) (digits : List Char) (n : ℕ) :
    ¬ Numeral (c :: digits) n := by
  intro h
  exact Bool.false_ne_true (hc.symm.trans (h.isDigit c List.mem_cons_self))

/-- The integer that is made of digits. -/
theorem map_readDigits?_eq_some_iff {digits : List Char} {sign : ℤ → ℤ} {i : ℤ} :
    ((readDigits? digits >>= fun n => pure (n : ℤ)).map sign) = some i ↔
      ∃ n : ℕ, Numeral digits n ∧ sign n = i := by
  simp only [← readDigits?_eq_some_iff]
  cases readDigits? digits <;> simp

/-- A text is one integer at most, and it is read if 64 bits hold it. -/
theorem exists_spelled (text : List Char) :
    ∃ found : Option ℤ, (∀ i, found = some i ↔ Spells text i) ∧
      readInt64? text = found.bind fun i =>
        if leastInt64 ≤ i ∧ i ≤ greatestInt64 then some (Int64.ofInt i) else none := by
  unfold readInt64?
  extract_lets +underBinder +lift found
  refine ⟨found, ?_, by cases found <;> rfl⟩
  intro i
  simp only [found]
  -- a sign is no digit, so the first character tells how the text may be an integer
  split
  · next digits =>
    refine map_readDigits?_eq_some_iff.trans ⟨?_, fun h => ?_⟩
    · rintro ⟨n, hn, rfl⟩
      exact .plus hn
    · cases h with
      | plain h => exact absurd h (not_numeral_cons rfl digits _)
      | plus h => exact ⟨_, h, rfl⟩
  · next digits =>
    refine map_readDigits?_eq_some_iff.trans ⟨?_, fun h => ?_⟩
    · rintro ⟨n, hn, rfl⟩
      exact .minus hn
    · cases h with
      | plain h => exact absurd h (not_numeral_cons rfl digits _)
      | minus h => exact ⟨_, h, rfl⟩
  · next hplus hminus =>
    refine map_readDigits?_eq_some_iff.trans ⟨?_, fun h => ?_⟩
    · rintro ⟨n, hn, rfl⟩
      exact .plain hn
    · cases h with
      | plain h => exact ⟨_, h, rfl⟩
      | plus h => exact absurd rfl (hplus _)
      | minus h => exact absurd rfl (hminus _)

/-- A text is one integer at most. -/
theorem Spells.unique {text : List Char} {i j : ℤ} (hi : Spells text i) (hj : Spells text j) :
    i = j := by
  obtain ⟨found, hfound, -⟩ := exists_spelled text
  exact Option.some.inj (((hfound i).2 hi).symm.trans ((hfound j).2 hj))

/-- **The integer of a text is read, if 64 bits hold it**, and nothing else is. -/
theorem readInt64?_eq_some_iff {text : List Char} {n : Int64} :
    readInt64? text = some n ↔ Spells text n.toInt := by
  obtain ⟨found, hfound, hread⟩ := exists_spelled text
  rw [hread, ← hfound, Option.bind_eq_some_iff]
  constructor
  · rintro ⟨i, rfl, hi⟩
    split at hi
    · next hrange =>
      have hlow : -2 ^ 63 ≤ i := hrange.1
      have hhigh : i < 2 ^ 63 := Int.lt_of_le_sub_one hrange.2
      rw [← Option.some.inj hi, Int64.toInt_ofInt_of_le hlow hhigh]
    · cases hi
  · rintro rfl
    refine ⟨n.toInt, rfl, ?_⟩
    have hlow : leastInt64 ≤ n.toInt := n.le_toInt
    have hhigh : n.toInt ≤ greatestInt64 := Int.le_sub_one_of_lt n.toInt_lt
    rw [if_pos ⟨hlow, hhigh⟩, Int64.ofInt_toInt]

/-! ### White space around a text -/

theorem Spells.not_isBlank {text : List Char} {i : ℤ} (h : Spells text i) :
    ∀ c ∈ text, Text.isBlank c = false := by
  have hdigits {digits : List Char} {n : ℕ} (h : Numeral digits n) :
      ∀ c ∈ digits, Text.isBlank c = false :=
    fun c hc => not_isBlank_of_isDigit (h.isDigit c hc)
  cases h with
  | plain h => exact hdigits h
  | plus h => exact List.forall_mem_cons.2 ⟨by decide, hdigits h⟩
  | minus h => exact List.forall_mem_cons.2 ⟨by decide, hdigits h⟩

theorem Spells.ne_nil {text : List Char} {i : ℤ} (h : Spells text i) : text ≠ [] := by
  cases h with
  | plain h => exact h.ne_nil
  | plus h => exact List.cons_ne_nil _ _
  | minus h => exact List.cons_ne_nil _ _

/-- White space in front of a text is cut off, and no more than that. -/
theorem dropWhile_isBlank {front rest : List Char} (hfront : ∀ c ∈ front, Text.isBlank c = true)
    (hrest : ∀ c ∈ rest.head?, Text.isBlank c = false) :
    (front ++ rest).dropWhile Text.isBlank = rest := by
  rw [List.dropWhile_append_of_pos hfront]
  cases rest with
  | nil => rfl
  | cons c rest => rw [List.dropWhile_cons_of_neg (by simp [hrest c rfl])]

/-- **White space around a text is cut off.** -/
theorem trim_append {front middle back : List Char} (hfront : ∀ c ∈ front, Text.isBlank c = true)
    (hback : ∀ c ∈ back, Text.isBlank c = true) (hne : middle ≠ [])
    (hmiddle : ∀ c ∈ middle, Text.isBlank c = false) :
    Text.trim (front ++ middle ++ back) = middle := by
  have hhead : ∀ c ∈ (middle ++ back).head?, Text.isBlank c = false := by
    intro c hc
    rw [List.head?_append_of_ne_nil _ hne] at hc
    exact hmiddle c (List.mem_of_head? hc)
  have hlast : ∀ c ∈ middle.reverse.head?, Text.isBlank c = false :=
    fun c hc => hmiddle c (List.mem_reverse.1 (List.mem_of_head? hc))
  rw [Text.trim, List.append_assoc, dropWhile_isBlank hfront hhead, List.reverse_append,
    dropWhile_isBlank (fun c hc => hback c (List.mem_reverse.1 hc)) hlast, List.reverse_reverse]

/-- A text is white space around what trimming leaves of it. -/
theorem exists_trim (text : List Char) :
    ∃ front back, (∀ c ∈ front, Text.isBlank c = true) ∧ (∀ c ∈ back, Text.isBlank c = true) ∧
      text = front ++ Text.trim text ++ back := by
  have hblank (text : List Char) : ∀ c ∈ text.takeWhile Text.isBlank, Text.isBlank c = true :=
    fun c hc => List.mem_takeWhile_imp hc
  refine ⟨text.takeWhile Text.isBlank,
    ((text.dropWhile Text.isBlank).reverse.takeWhile Text.isBlank).reverse, hblank text,
    fun c hc => hblank _ c (List.mem_reverse.1 hc), ?_⟩
  rw [Text.trim, List.append_assoc, ← List.reverse_append, List.takeWhile_append_dropWhile,
    List.reverse_reverse, List.takeWhile_append_dropWhile]

end Strata.Number
