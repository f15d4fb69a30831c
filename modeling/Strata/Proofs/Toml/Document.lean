/-
**Documents of lines are read back.**

The simplest documents are lines that give names values.  A line is read up to its end: the name,
for none of its characters ends it, then the value, which a line end ends, whatever it is.  A
document of such lines is read as their names and values, in the order of the lines, if no name
stands on two of them.

* `Reads`, `reads_text`, `reads_number` — values that a line end ends: texts and whole numbers;
* `Assignment`, `Assignment.line` — a line that gives a name a value;
* `readAssignment?_line` — **one line**;
* `readDocument?_lines` — **a document of lines**.
-/

import Mathlib.Data.List.TakeWhile
import Strata.Proofs.Number.ReadText
import Strata.Proofs.Toml.Quoted
import Strata.Toml.Reader

set_option relaxedAutoImplicit false
set_option autoImplicit false

namespace Strata.Toml

variable {c : Char} {digits rest text : List Char}

/-! ### Digits -/

/-- Two characters differ if a test holds of only one of them. -/
theorem ne_of_test {test : Char → Bool} {d : Char} (hc : test c = true) (hd : test d = false) :
    c ≠ d :=
  ne_of_apply_ne test (by rw [hc, hd]; decide)

theorem isSeparated_of_forall (hne : text ≠ []) (h : ∀ c ∈ text, c ≠ '_') :
    isSeparated text = true := by
  induction text with
  | nil => exact absurd rfl hne
  | cons c text ih =>
      obtain ⟨hc, htext⟩ := List.forall_mem_cons.1 h
      cases text with
      | nil => simp [isSeparated]
      | cons d text =>
          have hd := htext d List.mem_cons_self
          simpa [isSeparated, hc, hd] using ih (List.cons_ne_nil d text) htext

theorem hexValue?_of_isDigit (h : c.isDigit = true) :
    Number.hexValue? c = some (c.toNat - '0'.toNat) := by
  obtain ⟨hlow, hhigh⟩ := Number.isDigit_iff.1 h
  exact if_pos ⟨hlow, hhigh⟩

theorem spell_of_isDigit (h : ∀ c ∈ digits, c.isDigit = true) :
    spell 10 digits = Nat.ofDigitChars 10 digits 0 := by
  have hfold (start : ℕ) :
      digits.foldl (fun n c => n * 10 + (Number.hexValue? c).getD 0) start =
        Nat.ofDigitChars 10 digits start := by
    induction digits generalizing start with
    | nil => rfl
    | cons c digits ih =>
        obtain ⟨hc, hdigits⟩ := List.forall_mem_cons.1 h
        rw [List.foldl_cons, hexValue?_of_isDigit hc, Nat.ofDigitChars_cons, mul_comm 10 start]
        exact ih hdigits _
  exact hfold 0

/-- Digits that a line end ends. -/
theorem readDigits?_line (hne : digits ≠ []) (h : ∀ c ∈ digits, c.isDigit = true)
    (rest : List Char) :
    readDigits? Char.isDigit (digits ++ '\n' :: rest) = some (digits, '\n' :: rest) := by
  have hunderscore : ∀ c ∈ digits, c ≠ '_' := fun c hc => ne_of_test (h c hc) (by decide)
  have hbody : (digits ++ '\n' :: rest).takeWhile (fun c => c.isDigit || c == '_') = digits := by
    rw [List.takeWhile_append_of_pos fun c hc => by simp [h c hc]]
    simp
  have hfilter : digits.filter (· != '_') = digits :=
    List.filter_eq_self.2 fun c hc => by simpa using hunderscore c hc
  rw [readDigits?, hbody, if_pos (isSeparated_of_forall hne hunderscore), hfilter, List.drop_left]

/-- A number has no leading zero, apart from zero itself. -/
theorem repr_of_head? {n : ℕ} (h : (Nat.repr n).toList.head? = some '0') : n = 0 := by
  rw [Nat.toList_repr] at h
  induction n using Nat.strongRecOn with
  | ind n ih =>
      rw [Nat.toDigits_eq_if (by decide)] at h
      split at h
      · next hlt =>
        have hdigit : n.digitChar = '0' := Option.some.inj h
        interval_cases n <;> first | rfl | exact absurd hdigit (by decide)
      · next hge =>
        rw [List.head?_append_of_ne_nil _ Nat.toDigits_ne_nil] at h
        have := ih (n / 10) (by omega) h
        omega

/-! ### Whole numbers -/

/-- What a field of a date leaves of digits that a line end ends. -/
theorem exists_readField?_line {count low high n : ℕ} {left : List Char}
    (hdigits : ∀ c ∈ digits, c.isDigit = true)
    (h : readField? count low high (digits ++ '\n' :: rest) = some (n, left)) :
    ∃ more, (∀ c ∈ more, c.isDigit = true) ∧ left = more ++ '\n' :: rest := by
  simp only [readField?, List.all_eq_true] at h
  split at h
  · next hfield =>
    obtain ⟨hlength, hall⟩ := hfield
    -- the line end is no digit, so that the field ends before it
    have hcount : count ≤ digits.length := by
      by_contra hlt
      refine absurd (hall '\n' ?_) (by decide)
      rw [List.take_append, List.take_cons (by omega)]
      simp
    split at h
    · simp only [Option.some.injEq, Prod.mk.injEq] at h
      exact ⟨digits.drop count, fun c hc => hdigits c (List.mem_of_mem_drop hc),
        by rw [← h.2, List.drop_append_of_le_length hcount]⟩
    · exact absurd h (by simp)
  · exact absurd h (by simp)

theorem readChar?_line (hc : c.isDigit = false) (hline : c ≠ '\n')
    (hdigits : ∀ c ∈ digits, c.isDigit = true) (rest : List Char) :
    readChar? c (digits ++ '\n' :: rest) = none := by
  cases digits with
  | nil => exact if_neg hline.symm
  | cons d digits => exact if_neg (ne_of_test (hdigits d List.mem_cons_self) hc)

/-- Digits that a line end ends are neither a date nor a time. -/
theorem readDate?_line (hdigits : ∀ c ∈ digits, c.isDigit = true) (rest : List Char) :
    readDate? (digits ++ '\n' :: rest) = none := by
  have hday : readDay? (digits ++ '\n' :: rest) = none := by
    rw [readDay?]
    cases hfield : readField? 4 0 9999 (digits ++ '\n' :: rest) with
    | none => rfl
    | some field =>
        obtain ⟨more, hmore, hleft⟩ := exists_readField?_line hdigits hfield
        simp [hleft, readChar?_line (c := '-') (by decide) (by decide) hmore rest]
  have htime : readTime? (digits ++ '\n' :: rest) = none := by
    rw [readTime?]
    cases hfield : readField? 2 0 23 (digits ++ '\n' :: rest) with
    | none => rfl
    | some field =>
        obtain ⟨more, hmore, hleft⟩ := exists_readField?_line hdigits hfield
        simp [hleft, readChar?_line (c := ':') (by decide) (by decide) hmore rest]
  rw [readDate?, readDateEnd?, hday]
  simp [htime]

/-- No mark of a base, no sign and no name stands before a number that is written with digits. -/
theorem readNumber?_of_isDigit (hc : c.isDigit = true)
    (htext : ∀ d ∈ text.head?, d ≠ 'x' ∧ d ≠ 'o' ∧ d ≠ 'b') :
    readNumber? (c :: text) = readDecimal? false (c :: text) := by
  have hne {d : Char} : d.isDigit = false → c ≠ d := ne_of_test hc
  have hnumber : readNumber? (c :: text) = readUnsigned? false (c :: text) := by
    unfold readNumber?
    split
    · next h => exact absurd rfl (htext 'x' (by simp [(List.cons.inj h).2])).1
    · next h => exact absurd rfl (htext 'o' (by simp [(List.cons.inj h).2])).2.1
    · next h => exact absurd rfl (htext 'b' (by simp [(List.cons.inj h).2])).2.2
    · next h => exact absurd (List.cons.inj h).1 (hne (by decide))
    · next h => exact absurd (List.cons.inj h).1 (hne (by decide))
    · rfl
  rw [hnumber]
  unfold readUnsigned?
  split
  · next h => exact absurd (List.cons.inj h).1 (hne (by decide))
  · next h => exact absurd (List.cons.inj h).1 (hne (by decide))
  · rfl

theorem readWhole?_line (n : ℕ) (rest : List Char) :
    readWhole? ((Nat.repr n).toList ++ '\n' :: rest) =
      some ((Nat.repr n).toList, '\n' :: rest) := by
  have hdigits := readDigits?_line (Number.repr_ne_nil n) (Number.forall_isDigit_repr n) rest
  unfold readWhole?
  split
  · next more h =>
    have hzero : n = 0 := by
      apply repr_of_head?
      rw [← List.head?_append_of_ne_nil _ (Number.repr_ne_nil n), h]
      rfl
    subst hzero
    exact congrArg some (congrArg _ (List.cons.inj h).2.symm)
  · exact hdigits

theorem readDecimal?_line (n : ℕ) (hn : (n : ℤ) ≤ Number.greatestInt64) (rest : List Char) :
    readDecimal? false ((Nat.repr n).toList ++ '\n' :: rest) =
      some (.integer n, '\n' :: rest) := by
  have hspell : spell 10 (Nat.repr n).toList = n := by
    rw [spell_of_isDigit (Number.forall_isDigit_repr n), Number.ofDigitChars_repr]
  have hleast : Number.leastInt64 ≤ (n : ℤ) := by
    have : Number.leastInt64 ≤ 0 := by decide
    omega
  rw [readDecimal?, readWhole?_line]
  simp [-Nat.toList_repr, readFraction?, readExponent?, hspell, integer?, hleast, hn]

/-! ### Values -/

/-- A value that a line end ends, whatever follows on the lines below. -/
def Reads (written : List Char) (node : Node) : Prop :=
  ∀ fuel depth rest, readValue? (fuel + 1) depth (dropBlanks (written ++ '\n' :: rest)) =
    some (node, '\n' :: rest)

/-- A value that no blank and no bracket opens. -/
theorem reads_of_readScalar? {node : Node} (hblank : isBlank c = false) (hbracket : c ≠ '[')
    (hbrace : c ≠ '\x7b')
    (h : ∀ rest, readScalar? (c :: text ++ '\n' :: rest) = some (node, '\n' :: rest)) :
    Reads (c :: text) node := by
  intro fuel depth rest
  rw [dropBlanks, List.cons_append, List.dropWhile_cons_of_neg (by simp [hblank]), readValue?]
  · exact h rest
  · intro more hmore
    exact hbracket (List.cons.inj hmore).1
  · intro more hmore
    exact hbrace (List.cons.inj hmore).1

theorem exists_opening (quote : Char) (lines three : Bool) :
    ∃ more, (enclosure quote lines three).1 = quote :: more := by
  unfold enclosure
  split_ifs <;> exact ⟨_, rfl⟩

/-- A written text begins with a quote. -/
theorem exists_writeText (s : String) :
    ∃ c more, (writeText s).toList = c :: more ∧ (c = '"' ∨ c = '\'') := by
  rw [writeText]
  split
  · obtain ⟨more, hopening⟩ :=
      exists_opening '\'' (s.toList.contains '\n') (s.toList.contains '\'')
    exact ⟨'\'', _, by rw [String.toList_ofList, hopening]; rfl, Or.inr rfl⟩
  · obtain ⟨more, hopening⟩ := exists_opening '"' (s.toList.contains '\n') false
    exact ⟨'"', _, by rw [String.toList_ofList, hopening]; rfl, Or.inl rfl⟩

theorem readScalar?_of_quote (h : c = '"' ∨ c = '\'') :
    readScalar? (c :: text) =
      (readText? (c :: text)).map fun (s, rest) => (.scalar (.text s), rest) :=
  if_pos h

theorem readScalar?_of_isDigit (h : c.isDigit = true) :
    readScalar? (c :: text) =
      ((readDate? (c :: text)).or (readNumber? (c :: text))).map
        fun (v, rest) => (.scalar v, rest) := by
  have hne {d : Char} : d.isDigit = false → c ≠ d := ne_of_test h
  have hquote : ¬(c = '"' ∨ c = '\'') := by
    rintro (hc | hc)
    · exact hne (by decide) hc
    · exact hne (by decide) hc
  have htrue : ¬['t', 'r', 'u', 'e'].isPrefixOf (c :: text) := by
    simp [List.isPrefixOf, (hne (d := 't') (by decide)).symm]
  have hfalse : ¬['f', 'a', 'l', 's', 'e'].isPrefixOf (c :: text) := by
    simp [List.isPrefixOf, (hne (d := 'f') (by decide)).symm]
  unfold readScalar?
  dsimp only
  rw [if_neg hquote, if_neg htrue, if_neg hfalse]

/-- **A text is a value.** -/
theorem reads_text (s : String) : Reads (writeText s).toList (.scalar (.text s)) := by
  obtain ⟨c, more, hwritten, hquote⟩ := exists_writeText s
  rw [hwritten]
  refine reads_of_readScalar? ?_ ?_ ?_ fun rest => ?_
  · rcases hquote with rfl | rfl <;> rfl
  · rcases hquote with rfl | rfl <;> decide
  · rcases hquote with rfl | rfl <;> decide
  · rw [List.cons_append, readScalar?_of_quote hquote, ← List.cons_append, ← hwritten,
      readText?_writeText s (by simp)]
    rfl

/-- **A whole number of 63 bits is a value.** -/
theorem reads_number (n : ℕ) (hn : (n : ℤ) ≤ Number.greatestInt64) :
    Reads (Nat.repr n).toList (.scalar (.integer n)) := by
  obtain ⟨c, more, hwritten⟩ := List.exists_cons_of_ne_nil (Number.repr_ne_nil n)
  have hdigits := Number.forall_isDigit_repr n
  rw [hwritten] at hdigits ⊢
  obtain ⟨hc, hmore⟩ := List.forall_mem_cons.1 hdigits
  have hne {d : Char} : d.isDigit = false → c ≠ d := ne_of_test hc
  have hblank : isBlank c = false := by
    simp [isBlank, hne (d := ' ') (by decide), hne (d := '\t') (by decide)]
  refine reads_of_readScalar? hblank (hne (by decide)) (hne (by decide)) fun rest => ?_
  -- behind its first digit comes another one, or the line end
  have hmark : ∀ d ∈ (more ++ '\n' :: rest).head?, d ≠ 'x' ∧ d ≠ 'o' ∧ d ≠ 'b' := by
    cases more with
    | nil =>
        rintro _ ⟨⟩
        decide
    | cons d more =>
        rintro _ ⟨⟩
        have hd := hmore d List.mem_cons_self
        exact ⟨ne_of_test hd (by decide), ne_of_test hd (by decide), ne_of_test hd (by decide)⟩
  have hnumber : readNumber? (c :: more ++ '\n' :: rest) = some (.integer n, '\n' :: rest) := by
    rw [List.cons_append, readNumber?_of_isDigit hc hmark, ← List.cons_append, ← hwritten,
      readDecimal?_line n hn]
  rw [List.cons_append, readScalar?_of_isDigit hc, ← List.cons_append, readDate?_line hdigits,
    hnumber]
  rfl

/-! ### Lines -/

/-- A name that needs no quotes. -/
def IsBare (name : String) : Prop := name ≠ "" ∧ name.toList.all isKeyChar = true

/-- A line that gives a name a value. -/
structure Assignment where
  name : String
  written : String
  node : Node
  bare : IsBare name
  reads : Reads written.toList node

namespace Assignment

variable (a : Assignment)

def line : String := a.name ++ " = " ++ a.written ++ "\n"

def entry : String × Node := (a.name, a.node)

theorem line_append (rest : List Char) :
    a.line.toList ++ rest =
      a.name.toList ++ ' ' :: '=' :: ' ' :: (a.written.toList ++ '\n' :: rest) := by
  simp [line]

theorem exists_name : ∃ c more, a.name.toList = c :: more ∧ isKeyChar c = true := by
  obtain ⟨c, more, hname⟩ := List.exists_cons_of_ne_nil
    (show a.name.toList ≠ [] from fun h => a.bare.1 (String.toList_eq_nil_iff.1 h))
  exact ⟨c, more, hname, List.all_eq_true.1 a.bare.2 c (by simp [hname])⟩

theorem exists_line : ∃ c more, a.line.toList = c :: more ∧ isKeyChar c = true := by
  obtain ⟨c, more, hname, hc⟩ := a.exists_name
  exact ⟨c, _, by rw [← List.append_nil a.line.toList, a.line_append, hname]; rfl, hc⟩

end Assignment

variable {a : Assignment}

theorem dropBlanks_of_isKeyChar (hc : isKeyChar c = true) : dropBlanks (c :: text) = c :: text := by
  have hblank : isBlank c = false := by
    simp [isBlank, ne_of_test hc (show isKeyChar ' ' = false by decide),
      ne_of_test hc (show isKeyChar '\t' = false by decide)]
  exact List.dropWhile_cons_of_neg (by simp [hblank])

/-- A name stands at the front of its line. -/
theorem dropLines_of_isKeyChar (hc : isKeyChar c = true) : dropLines (c :: text) = c :: text := by
  have hend : dropLineEnd? (c :: text) = none := by
    refine dropLineEnd?_of_ne ?_
    rintro _ ⟨⟩
    exact ⟨ne_of_test hc (by decide), ne_of_test hc (by decide)⟩
  have hmark : c ≠ '#' := ne_of_test hc (by decide)
  simp [dropLines, dropLinesWith, dropBlanks_of_isKeyChar hc, hmark, hend]

theorem readKey?_bare (a : Assignment) (rest : List Char) :
    readKey? (a.name.toList ++ ' ' :: rest) = some (a.name, ' ' :: rest) := by
  obtain ⟨c, more, hname, hc⟩ := a.exists_name
  have htake : (a.name.toList ++ ' ' :: rest).takeWhile isKeyChar = a.name.toList := by
    rw [List.takeWhile_append_of_pos (List.all_eq_true.1 a.bare.2)]
    simp [show isKeyChar ' ' = false by decide]
  unfold readKey?
  split
  · next hquote =>
    rw [hname] at hquote
    exact absurd (List.cons.inj hquote).1 (ne_of_test hc (by decide))
  · next hquote =>
    rw [hname] at hquote
    exact absurd (List.cons.inj hquote).1 (ne_of_test hc (by decide))
  · simp [htake, a.bare.1]

/-- A name without quotes, up to the sign that gives it a value. -/
theorem readPath?_bare (a : Assignment) (rest : List Char) :
    readPath? (a.name.toList ++ ' ' :: '=' :: rest) = some ([], a.name, '=' :: rest) := by
  obtain ⟨c, more, hname, hc⟩ := a.exists_name
  have hblanks : dropBlanks (a.name.toList ++ ' ' :: '=' :: rest) =
      a.name.toList ++ ' ' :: '=' :: rest := by
    rw [hname, List.cons_append, dropBlanks_of_isKeyChar hc]
  show readPathWith? (78 + 1) _ = _
  rw [readPathWith?, hblanks, readKey?_bare]
  rfl

theorem replace_of_not_mem {name : String} {node : Node} {entries : Entries}
    (h : name ∉ entries.map Prod.fst) : replace name node entries = entries ++ [(name, node)] := by
  induction entries with
  | nil => rfl
  | cons e entries ih =>
      simp only [List.map_cons, List.mem_cons, not_or] at h
      rw [replace, if_neg (Ne.symm h.1), ih h.2, List.cons_append]

theorem lookup?_of_not_mem {name : String} {entries : Entries}
    (h : name ∉ entries.map Prod.fst) : lookup? name entries = none := by
  rw [lookup?, List.lookup_eq_none_iff]
  intro e he
  simp only [bne_iff_ne]
  rintro rfl
  exact h (List.mem_map_of_mem he)

/-- A new name without dots joins a document without headers behind the others. -/
theorem insert?_of_not_mem {name : String} {node : Node} {entries : Entries}
    (h : name ∉ entries.map Prod.fst) :
    Progress.insert? ⟨entries, []⟩ [] name node = some ⟨entries ++ [(name, node)], []⟩ := by
  rw [← replace_of_not_mem h]
  simp [Progress.insert?, changeAt, insertKey, addNew, lookup?_of_not_mem h]

/-- **One line** is read up to its end, and its name joins the others. -/
theorem readAssignment?_line {entries : Entries} (h : a.name ∉ entries.map Prod.fst)
    (rest : List Char) :
    readAssignment? ⟨entries, []⟩ (a.line.toList ++ rest) =
      some (⟨entries ++ [a.entry], []⟩, rest) := by
  have hvalue (fuel : ℕ) :
      readValue? (fuel + 1) 0 (dropBlanks (' ' :: (a.written.toList ++ '\n' :: rest))) =
        some (a.node, '\n' :: rest) := a.reads fuel 0 rest
  have hend : endLine? ('\n' :: rest) = some rest := rfl
  rw [readAssignment?, a.line_append, readPath?_bare]
  simp only [hvalue, insert?_of_not_mem h, hend]
  rfl

/-- A line that gives a name a value is no header. -/
theorem readLine?_line (p : Progress) (rest : List Char) :
    readLine? p (a.line.toList ++ rest) = readAssignment? p (a.line.toList ++ rest) := by
  obtain ⟨c, more, hname, hc⟩ := a.exists_name
  have hbracket : c ≠ '[' := ne_of_test hc (by decide)
  rw [a.line_append, hname, List.cons_append]
  unfold readLine?
  split
  · next h => exact absurd (List.cons.inj h).1 hbracket
  · next h => exact absurd (List.cons.inj h).1 hbracket
  · rfl

/-! ### Documents -/

theorem readLines?_step {entries : Entries} (h : a.name ∉ entries.map Prod.fst) (fuel : ℕ)
    (rest : List Char) :
    readLines? (fuel + 1) ⟨entries, []⟩ (a.line.toList ++ rest) =
      readLines? fuel ⟨entries ++ [a.entry], []⟩ rest := by
  obtain ⟨c, more, hline, hc⟩ := a.exists_line
  have hread : readLine? ⟨entries, []⟩ (c :: (more ++ rest)) =
      some (⟨entries ++ [a.entry], []⟩, rest) := by
    rw [← List.cons_append, ← hline, readLine?_line, readAssignment?_line h]
  rw [hline, List.cons_append, readLines?, dropLines_of_isKeyChar hc]
  simp only [hread]

theorem readLines?_lines {assignments : List Assignment} {entries : Entries} {fuel : ℕ}
    (hfuel : assignments.length < fuel)
    (hnames : (entries.map Prod.fst ++ assignments.map Assignment.name).Nodup) :
    readLines? fuel ⟨entries, []⟩ (assignments.flatMap fun a => a.line.toList) =
      some (entries ++ assignments.map Assignment.entry) := by
  induction assignments generalizing entries fuel with
  | nil =>
      obtain ⟨fuel, rfl⟩ := Nat.exists_eq_add_one.2 (Nat.zero_lt_of_lt hfuel)
      simp [readLines?, dropLines, dropLinesWith, dropBlanks, dropLineEnd?]
  | cons a assignments ih =>
      obtain ⟨fuel, rfl⟩ := Nat.exists_eq_add_one.2 (Nat.zero_lt_of_lt hfuel)
      have hnew : a.name ∉ entries.map Prod.fst := by
        intro hmem
        exact (List.disjoint_of_nodup_append hnames) hmem (by simp)
      have hmore : ((entries ++ [a.entry]).map Prod.fst ++
          assignments.map Assignment.name).Nodup := by
        simpa [Assignment.entry] using hnames
      rw [List.flatMap_cons, readLines?_step hnew, ih (by simpa using hfuel) hmore]
      simp

theorem length_le_lines (assignments : List Assignment) :
    assignments.length ≤ (assignments.flatMap fun a => a.line.toList).length := by
  induction assignments with
  | nil => exact Nat.zero_le _
  | cons a assignments ih =>
      obtain ⟨c, more, hline, -⟩ := a.exists_line
      simp only [List.flatMap_cons, List.length_append, hline, List.length_cons]
      omega

/-- **A document of lines** is read as their names and values. -/
theorem readDocument?_lines {assignments : List Assignment} {text : String}
    (htext : text.toList = assignments.flatMap fun a => a.line.toList)
    (hnames : (assignments.map Assignment.name).Nodup) :
    readDocument? text = some (assignments.map Assignment.entry) := by
  have hread : readLines? (text.toList.length + 1) ⟨[], []⟩ text.toList =
      some (assignments.map Assignment.entry) := by
    have hlength := length_le_lines assignments
    rw [htext, readLines?_lines (by omega) (by simpa using hnames), List.nil_append]
  unfold readDocument?
  split
  · next rest hmark =>
    -- no name begins with the mark of the byte order
    cases assignments with
    | nil => simp [hmark] at htext
    | cons a assignments =>
        obtain ⟨c, more, hline, hc⟩ := a.exists_line
        rw [hmark, List.flatMap_cons, hline] at htext
        exact absurd (List.cons.inj htext).1.symm (ne_of_test hc (by decide))
  · exact hread

end Strata.Toml
