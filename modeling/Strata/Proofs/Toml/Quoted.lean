/-
**Texts are read back as they were written.**

A text is written between double quotes, where a character that cannot stand for itself has an
escape, or between single quotes, where every character stands for itself.  Reading undoes one
character after the other up to the closing quotes, and these are told from what the text holds:
double quotes of the text are escaped, and a text with three single quotes side by side, or with one
at its end, is not put between single quotes.

* `Escapes`, `escapes_escape` — a character in double quotes, and what reading makes of it;
* `readBasic?_escape`, `readLinesText?_escape` — texts in double quotes, in one line or in several;
* `readLinesText?_literal` — texts in single quotes;
* `readText?_writeText` — **every text is read back**, whatever follows that is no quote.
-/

import Mathlib.Data.List.TakeWhile
import Mathlib.Order.Basic
import Mathlib.Tactic.Common
import Strata.Toml.Quoted

set_option relaxedAutoImplicit false
set_option autoImplicit false

namespace Strata.Toml

variable {c : Char} {chars text rest : List Char} {lines : Bool}

/-! ### Escapes -/

theorem hexValue?_upperHexDigit : ∀ d < 16, Number.hexValue? (Number.upperHexDigit d) = some d := by
  decide

/-- A character that is not plain is below the hundred and twenty-eighth. -/
theorem toNat_lt_of_not_isPlain (h : isPlain c = false) : c.toNat < 128 := by
  simp only [isPlain, Bool.or_eq_false_iff, Bool.and_eq_false_iff, decide_eq_false_iff_not,
    bne_eq_false_iff_eq] at h
  omega

theorem ne_lineEnd_of_isPlain (h : isPlain c = true) : c ≠ '\n' ∧ c ≠ '\r' := by
  constructor <;> rintro rfl <;> revert h <;> decide

/-- A character with a number below 256 is read back from its two hexadecimal digits. -/
theorem readCodePoint?_hex (h : c.toNat < 256) (text : List Char) :
    readCodePoint? 4 ('0' :: '0' :: Number.upperHexDigit (c.toNat / 16) ::
      Number.upperHexDigit (c.toNat % 16) :: text) = some (c, text) := by
  have hzero : Number.hexValue? '0' = some 0 := rfl
  have hhigh := hexValue?_upperHexDigit (c.toNat / 16) (by omega)
  have hlow := hexValue?_upperHexDigit (c.toNat % 16) (by omega)
  have hnumber : c.toNat / 16 * 16 + c.toNat % 16 = c.toNat := by omega
  simp only [readCodePoint?, Number.readHex?, List.take, List.length_cons, List.length_nil,
    List.foldlM_cons, List.foldlM_nil, hzero, hhigh, hlow, Option.map_some, Option.bind_eq_bind,
    Option.bind_some, Nat.zero_mul, Nat.zero_add, Option.pure_def, hnumber]
  rw [if_pos trivial, if_pos (show c.toNat.isValidChar from c.valid), Char.ofNat_toNat]
  rfl

/-- How a character is written between double quotes. -/
inductive Escapes (lines : Bool) (c : Char) : List Char → Prop
  /-- It stands for itself. -/
  | itself (hquote : c ≠ '"') (hslash : c ≠ '\\') (hreturn : c ≠ '\r')
      (hplain : isPlain c = true ∨ lines = true ∧ c = '\n') : Escapes lines c [c]
  /-- A letter behind a backslash, and perhaps a code, stand for it. -/
  | escaped {letter : Char} {code : List Char} (hblank : isBlank letter = false)
      (hline : letter ≠ '\n' ∧ letter ≠ '\r')
      (hread : ∀ text, readEscape? (letter :: code ++ text) = some (c, text)) :
      Escapes lines c ('\\' :: letter :: code)

/-- **Every character is written in one of the two ways.** -/
theorem escapes_escape (lines : Bool) (c : Char) : Escapes lines c (escape lines c) := by
  unfold escape
  split_ifs with hbackspace htab hline hlines hfeed hreturn hquote hplain
  · subst hbackspace
    exact .escaped rfl (by decide) fun text => rfl
  · subst htab
    exact .escaped rfl (by decide) fun text => rfl
  · subst hline
    exact .itself (by decide) (by decide) (by decide) (Or.inr ⟨hlines, rfl⟩)
  · subst hline
    exact .escaped rfl (by decide) fun text => rfl
  · subst hfeed
    exact .escaped rfl (by decide) fun text => rfl
  · subst hreturn
    exact .escaped rfl (by decide) fun text => rfl
  · rcases hquote with rfl | rfl
    · exact .escaped rfl (by decide) fun text => rfl
    · exact .escaped rfl (by decide) fun text => rfl
  · exact .itself (fun h => hquote (Or.inl h)) (fun h => hquote (Or.inr h)) hreturn (Or.inl hplain)
  · have hsmall := toNat_lt_of_not_isPlain (by simpa using hplain)
    exact .escaped rfl (by decide) fun text => readCodePoint?_hex (by omega) text

/-- No escape begins with a quote. -/
theorem Escapes.head_ne {written : List Char} (h : Escapes lines c written) :
    ∃ first more, written = first :: more ∧ first ≠ '"' := by
  cases h with
  | itself hquote => exact ⟨c, [], rfl, hquote⟩
  | escaped => exact ⟨'\\', _, rfl, by decide⟩

theorem length_le_escape (lines : Bool) (chars : List Char) :
    chars.length ≤ (chars.flatMap (escape lines)).length := by
  induction chars with
  | nil => exact Nat.zero_le _
  | cons c chars ih =>
      obtain ⟨first, more, hwritten, -⟩ := (escapes_escape lines c).head_ne
      simp only [List.flatMap_cons, List.length_append, hwritten, List.length_cons]
      omega

/-! ### Texts of one line -/

theorem readBasic?_step {written : List Char} (h : Escapes false c written) (fuel : Nat)
    (text : List Char) :
    readBasic? (fuel + 1) (written ++ text) =
      (readBasic? fuel text).map fun (cs, rest) => (c :: cs, rest) := by
  cases h with
  | itself hquote hslash hreturn hplain =>
      have hplain : isPlain c = true := by simpa using hplain
      simp [readBasic?, hplain]
  | escaped hblank hline hread =>
      rw [List.cons_append, readBasic?, hread]

theorem readBasic?_escape (chars rest : List Char) {fuel : Nat} (hfuel : chars.length < fuel) :
    readBasic? fuel (chars.flatMap (escape false) ++ '"' :: rest) = some (chars, rest) := by
  induction chars generalizing fuel with
  | nil =>
      obtain ⟨fuel, rfl⟩ := Nat.exists_eq_add_one.2 (Nat.zero_lt_of_lt hfuel)
      rfl
  | cons c chars ih =>
      obtain ⟨fuel, rfl⟩ := Nat.exists_eq_add_one.2 (Nat.zero_lt_of_lt hfuel)
      rw [List.flatMap_cons, List.append_assoc, readBasic?_step (escapes_escape false c),
        ih (by simpa using hfuel)]
      rfl

/-! ### Texts of several lines -/

/-- The number of quotes at the front of a text. -/
def quoteRun (quote : Char) (text : List Char) : Nat := (text.takeWhile (· == quote)).length

theorem closingQuotes?_of_lt {quote : Char} (h : quoteRun quote text < 3) :
    closingQuotes? quote text = none := by
  have hcount : ((text.take 5).takeWhile (· == quote)).length = min 5 (quoteRun quote text) := by
    rw [← List.take_takeWhile, List.length_take, quoteRun]
  rw [closingQuotes?, hcount, if_neg (by omega)]

/-- Three quotes close a text, unless a fourth one follows. -/
theorem closingQuotes?_closing {quote : Char} (hrest : ∀ c ∈ rest.head?, c ≠ quote) :
    closingQuotes? quote (quote :: quote :: quote :: rest) = some (0, rest) := by
  have hnone : (rest.take 2).takeWhile (· == quote) = [] := by
    cases rest with
    | nil => rfl
    | cons c rest => simp [hrest c rfl]
  simp [closingQuotes?, hnone]

theorem closingQuotes?_of_ne {quote : Char} (h : c ≠ quote) (text : List Char) :
    closingQuotes? quote (c :: text) = none :=
  closingQuotes?_of_lt (by simp [quoteRun, h])

theorem dropLineEnd?_of_ne (h : ∀ c ∈ text.head?, c ≠ '\n' ∧ c ≠ '\r') :
    dropLineEnd? text = none := by
  cases text with
  | nil => rfl
  | cons c text =>
      obtain ⟨hline, hreturn⟩ := h c rfl
      simp [dropLineEnd?, hline, hreturn]

theorem readLinesText?_closing {quote : Char} (fuel : Nat) (hrest : ∀ c ∈ rest.head?, c ≠ quote) :
    readLinesText? quote (fuel + 1) (quote :: quote :: quote :: rest) = some ([], rest) := by
  unfold readLinesText?
  rw [closingQuotes?_closing hrest]
  rfl

/-- A character that stands for itself. -/
theorem readLinesText?_itself {quote : Char} (hclosing : closingQuotes? quote (c :: text) = none)
    (hreturn : c ≠ '\r') (hescape : ¬ (c = '\\' ∧ quote = '"'))
    (hplain : isPlain c = true ∨ c = '\n') (fuel : Nat) :
    readLinesText? quote (fuel + 1) (c :: text) =
      (readLinesText? quote fuel text).map fun (cs, rest) => (c :: cs, rest) := by
  conv_lhs => unfold readLinesText?
  rw [hclosing]
  dsimp only
  split
  · next h => exact absurd h (List.cons_ne_nil _ _)
  · next h => exact absurd (List.cons.inj h).1 hreturn
  · next h =>
    obtain ⟨rfl, rfl⟩ := List.cons.inj h
    rw [if_neg hescape, if_pos hplain]

/-- A character for which an escape stands. -/
theorem readLinesText?_escaped (hfolded : dropFolded? text = none)
    (hread : readEscape? text = some (c, rest)) (fuel : Nat) :
    readLinesText? '"' (fuel + 1) ('\\' :: text) =
      (readLinesText? '"' fuel rest).map fun (cs, rest) => (c :: cs, rest) := by
  conv_lhs => unfold readLinesText?
  rw [closingQuotes?_of_ne (by decide) text]
  dsimp only
  split
  · next h => exact absurd h (List.cons_ne_nil _ _)
  · next h => exact absurd (List.cons.inj h).1 (by decide)
  · next h =>
    obtain ⟨rfl, rfl⟩ := List.cons.inj h
    rw [if_pos (by simp), hfolded]
    dsimp only
    rw [hread]

theorem readLinesText?_step {written : List Char} (h : Escapes true c written) (fuel : Nat)
    (text : List Char) :
    readLinesText? '"' (fuel + 1) (written ++ text) =
      (readLinesText? '"' fuel text).map fun (cs, rest) => (c :: cs, rest) := by
  cases h with
  | itself hquote hslash hreturn hplain =>
      exact readLinesText?_itself (closingQuotes?_of_ne hquote text) hreturn
        (fun h => hslash h.1) (by simpa using hplain) fuel
  | @escaped letter code hblank hline hread =>
      have hfolded : dropFolded? (letter :: code ++ text) = none := by
        rw [dropFolded?, dropBlanks, List.cons_append,
          List.dropWhile_cons_of_neg (by simp [hblank]),
          dropLineEnd?_of_ne (by rintro _ ⟨⟩; exact hline)]
      exact readLinesText?_escaped hfolded (hread text) fuel

theorem readLinesText?_escape (chars : List Char) {fuel : Nat} (hfuel : chars.length < fuel)
    (hrest : ∀ c ∈ rest.head?, c ≠ '"') :
    readLinesText? '"' fuel (chars.flatMap (escape true) ++ '"' :: '"' :: '"' :: rest) =
      some (chars, rest) := by
  induction chars generalizing fuel with
  | nil =>
      obtain ⟨fuel, rfl⟩ := Nat.exists_eq_add_one.2 (Nat.zero_lt_of_lt hfuel)
      exact readLinesText?_closing fuel hrest
  | cons c chars ih =>
      obtain ⟨fuel, rfl⟩ := Nat.exists_eq_add_one.2 (Nat.zero_lt_of_lt hfuel)
      rw [List.flatMap_cons, List.append_assoc, readLinesText?_step (escapes_escape true c),
        ih (by simpa using hfuel)]
      rfl

/-! ### Texts between single quotes -/

/-- The quotes that close a text do not add to a run of quotes in it. -/
theorem quoteRun_append {quote : Char} (hlast : text.getLast? ≠ some quote) (hne : text ≠ [])
    (rest : List Char) : quoteRun quote (text ++ rest) = quoteRun quote text := by
  have hlength : ¬ (text.takeWhile (· == quote)).length = text.length := by
    intro h
    -- otherwise all of the text is quotes, and its last character too
    have hall : text.takeWhile (· == quote) = text := (List.takeWhile_prefix _).eq_of_length h
    have hmem : text.getLast hne ∈ text.takeWhile (· == quote) := by
      rw [hall]
      exact List.getLast_mem hne
    have heq : text.getLast hne = quote := by simpa using List.mem_takeWhile_imp hmem
    exact hlast (by rw [List.getLast?_eq_some_getLast hne, heq])
  rw [quoteRun, List.takeWhile_append, if_neg hlength, quoteRun]

theorem getLast?_of_cons {quote : Char} (h : (c :: chars).getLast? ≠ some quote) :
    chars.getLast? ≠ some quote := by
  cases chars with
  | nil => simp
  | cons d chars => rwa [List.getLast?_cons_cons] at h

theorem readLinesText?_literal (hplain : ∀ c ∈ chars, isPlain c = true ∨ c = '\n')
    (hthree : hasThreeQuotes chars = false) (hlast : chars.getLast? ≠ some '\'') {fuel : Nat}
    (hfuel : chars.length < fuel) (hrest : ∀ c ∈ rest.head?, c ≠ '\'') :
    readLinesText? '\'' fuel (chars ++ '\'' :: '\'' :: '\'' :: rest) = some (chars, rest) := by
  induction chars generalizing fuel with
  | nil =>
      obtain ⟨fuel, rfl⟩ := Nat.exists_eq_add_one.2 (Nat.zero_lt_of_lt hfuel)
      exact readLinesText?_closing fuel hrest
  | cons c chars ih =>
      obtain ⟨fuel, rfl⟩ := Nat.exists_eq_add_one.2 (Nat.zero_lt_of_lt hfuel)
      obtain ⟨hc, hchars⟩ := List.forall_mem_cons.1 hplain
      simp only [hasThreeQuotes, Bool.or_eq_false_iff, decide_eq_false_iff_not] at hthree
      have hrun : quoteRun '\'' (c :: chars) < 3 := not_le.1 hthree.1
      have hclosing (after : List Char) : closingQuotes? '\'' (c :: (chars ++ after)) = none :=
        closingQuotes?_of_lt
          ((quoteRun_append hlast (List.cons_ne_nil c chars) after).trans_lt hrun)
      have hreturn : c ≠ '\r' := by
        rcases hc with hc | rfl
        · exact (ne_lineEnd_of_isPlain hc).2
        · decide
      rw [List.cons_append, readLinesText?_itself (hclosing _) hreturn (by simp) hc,
        ih hchars hthree.2 (getLast?_of_cons hlast) (by simpa using hfuel)]
      rfl

theorem readLiteral?_append (hchars : ∀ c ∈ chars, c ≠ '\'' ∧ isPlain c = true)
    (rest : List Char) : readLiteral? (chars ++ '\'' :: rest) = some (chars, rest) := by
  have hbody : (chars ++ '\'' :: rest).takeWhile (fun c => c != '\'' && isPlain c) = chars := by
    rw [List.takeWhile_append_of_pos (by simpa using hchars)]
    simp
  rw [readLiteral?, hbody, List.drop_left]
  rfl

/-! ### Every text -/

theorem readLinesTextBody?_of_line {quote : Char} {result : Option (List Char × List Char)}
    (h : readLinesText? quote (text.length + 1) text = result) :
    readLinesTextBody? quote ('\n' :: text) = result := h

theorem readLinesTextBody?_of_ne {quote : Char} {result : Option (List Char × List Char)}
    (htext : ∀ c ∈ text.head?, c ≠ '\n' ∧ c ≠ '\r')
    (h : readLinesText? quote (text.length + 1) text = result) :
    readLinesTextBody? quote text = result := by
  rw [readLinesTextBody?, dropLineEnd?_of_ne htext]
  exact h

/-- A text between double quotes, in one line or in several. -/
theorem readText?_double (lines : Bool) (chars : List Char) (hrest : ∀ c ∈ rest.head?, c ≠ '"') :
    readText? ((enclosure '"' lines false).1 ++ chars.flatMap (escape lines) ++
      (enclosure '"' lines false).2 ++ rest) = some (String.ofList chars, rest) := by
  have hlength := length_le_escape lines chars
  cases lines with
  | true =>
      have hread : readLinesTextBody? '"' ('\n' :: (chars.flatMap (escape true) ++
          '"' :: '"' :: '"' :: rest)) = some (chars, rest) := by
        refine readLinesTextBody?_of_line (readLinesText?_escape chars ?_ hrest)
        rw [List.length_append]
        omega
      simp only [enclosure, if_true, List.cons_append, List.nil_append, List.append_assoc]
      rw [readText?, hread]
      rfl
  | false =>
      have hread : readBasic? ((chars.flatMap (escape false) ++ '"' :: rest).length + 1)
          (chars.flatMap (escape false) ++ '"' :: rest) = some (chars, rest) := by
        refine readBasic?_escape chars rest ?_
        rw [List.length_append]
        omega
      simp only [enclosure, Bool.false_eq_true, if_false, List.cons_append, List.nil_append,
        List.append_assoc]
      rw [readText?, hread]
      · rfl
      · -- the opening quote is not the first of three
        intro more hthree
        cases chars with
        | nil =>
            have htwo : rest = '"' :: more := (List.cons.inj hthree).2
            exact hrest '"' (by rw [htwo]; rfl) rfl
        | cons c chars =>
            obtain ⟨first, behind, hwritten, hne⟩ := (escapes_escape false c).head_ne
            rw [List.flatMap_cons, hwritten] at hthree
            exact hne (List.cons.inj hthree).1

/-- A text between single quotes, one of them or three. -/
theorem readText?_single (hliteral : isLiteral chars = true) (hrest : ∀ c ∈ rest.head?, c ≠ '\'') :
    readText? ((enclosure '\'' (chars.contains '\n') (chars.contains '\'')).1 ++ chars ++
      (enclosure '\'' (chars.contains '\n') (chars.contains '\'')).2 ++ rest) =
        some (String.ofList chars, rest) := by
  simp only [isLiteral, Bool.and_eq_true, List.all_eq_true, Bool.or_eq_true, beq_iff_eq,
    Bool.not_eq_true', bne_iff_ne] at hliteral
  obtain ⟨⟨⟨-, hplain⟩, hthree⟩, hlast⟩ := hliteral
  have hread : readLinesText? '\'' ((chars ++ '\'' :: '\'' :: '\'' :: rest).length + 1)
      (chars ++ '\'' :: '\'' :: '\'' :: rest) = some (chars, rest) := by
    refine readLinesText?_literal hplain hthree hlast ?_ hrest
    rw [List.length_append]
    omega
  cases hlines : chars.contains '\n' with
  | true =>
      simp only [enclosure, if_true, List.cons_append, List.nil_append, List.append_assoc]
      rw [readText?, readLinesTextBody?_of_line hread]
      rfl
  | false =>
      have hline : '\n' ∉ chars := by simpa using hlines
      have hplain : ∀ c ∈ chars, isPlain c = true := fun c hc =>
        (hplain c hc).resolve_right (ne_of_mem_of_not_mem hc hline)
      cases hquotes : chars.contains '\'' with
      | true =>
          have hhead : ∀ c ∈ (chars ++ '\'' :: '\'' :: '\'' :: rest).head?,
              c ≠ '\n' ∧ c ≠ '\r' := by
            cases chars with
            | nil =>
                rintro _ ⟨⟩
                decide
            | cons c chars =>
                rintro _ ⟨⟩
                exact ne_lineEnd_of_isPlain (hplain c List.mem_cons_self)
          simp only [enclosure, Bool.false_eq_true, if_false, if_true, List.cons_append,
            List.nil_append, List.append_assoc]
          rw [readText?, readLinesTextBody?_of_ne hhead hread]
          rfl
      | false =>
          have hquote : '\'' ∉ chars := by simpa using hquotes
          have hother : ∀ c ∈ chars, c ≠ '\'' ∧ isPlain c = true := fun c hc =>
            ⟨ne_of_mem_of_not_mem hc hquote, hplain c hc⟩
          simp only [enclosure, Bool.false_eq_true, if_false, List.cons_append, List.nil_append,
            List.append_assoc]
          rw [readText?, readLiteral?_append hother]
          · rfl
          · -- the opening quote is not the first of three
            intro more hmore
            cases chars with
            | nil =>
                have htwo : rest = '\'' :: more := (List.cons.inj hmore).2
                exact hrest '\'' (by rw [htwo]; rfl) rfl
            | cons c chars => exact (hother c List.mem_cons_self).1 (List.cons.inj hmore).1

/-- **Every text is read back.**  What follows may be anything but another quote. -/
theorem readText?_writeText (text : String) (hrest : ∀ c ∈ rest.head?, c ≠ '"' ∧ c ≠ '\'') :
    readText? ((writeText text).toList ++ rest) = some (text, rest) := by
  rw [writeText]
  split
  · next hliteral =>
    have hread := readText?_single hliteral fun c hc => (hrest c hc).2
    rw [String.ofList_toList] at hread
    simpa using hread
  · have hread := readText?_double (text.toList.contains '\n') text.toList
      fun c hc => (hrest c hc).1
    rw [String.ofList_toList] at hread
    simpa using hread

end Strata.Toml
