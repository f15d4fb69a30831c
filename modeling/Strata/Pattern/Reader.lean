/-
**Reading patterns.**

The text of a pattern is read from the left.  Letters stand for themselves; a backslash takes the
special meaning from a sign and gives one to some letters; brackets hold a class; round brackets
group, and may name the group or set flags; signs or braces behind an item repeat it.  Flags hold
from where they are set to the end of the group they are set in.  There is no looking around and no
referring back.

Whether a repetition prefers many or few does not matter for a search, so the sign for it is read
and dropped, and so are the names of groups.

* `Flags` — what the letters in `(?imsuUxR)` set;
* `readEscape?` — a backslash and what follows it;
* `readClass?` — a class in brackets;
* `readBody?` — a sequence of choices;
* `Pattern.read` — a whole pattern, with `PatternFault` when it is refused.
-/

import Strata.Pattern.Basic

set_option relaxedAutoImplicit false
set_option autoImplicit false

namespace Strata.Pattern

/-! ### Flags -/

/-- The settings under which a part of a pattern is read. -/
structure Flags where
  ignoreCase : Bool
  multiLine : Bool
  dotAll : Bool
  anyLineEnd : Bool
  unicode : Bool
  spaced : Bool
  deriving DecidableEq, Repr

/-- The settings at the start of a pattern. -/
def Flags.initial : Flags := ⟨false, false, false, false, true, false⟩

/-- Sets the flag of a letter. -/
def Flags.set? (flags : Flags) (letter : Char) (on : Bool) : Option Flags :=
  match letter with
  | 'i' => some { flags with ignoreCase := on }
  | 'm' => some { flags with multiLine := on }
  | 's' => some { flags with dotAll := on }
  | 'R' => some { flags with anyLineEnd := on }
  | 'u' => some { flags with unicode := on }
  | 'x' => some { flags with spaced := on }
  | 'U' => some flags
  | _ => none

/-- Reads the letters of a group of flags up to the sign that ends it, and returns whether there
were any, the settings they make, that sign and the rest.  No letter may occur twice, and the
hyphen that turns flags off must be followed by one. -/
def readFlags? (flags : Flags) (seen : List Char) :
    List Char → Option (Bool × Flags × Char × List Char)
  | [] => none
  | c :: rest =>
    if c = ':' ∨ c = ')' then
      if seen.head? = some '-' then none else some (!seen.isEmpty, flags, c, rest)
    else if seen.contains c then none
    else if c = '-' then readFlags? flags (c :: seen) rest
    else
      match flags.set? c (!seen.contains '-') with
      | none => none
      | some flags => readFlags? flags (c :: seen) rest

/-! ### Blanks -/

/-- Drops a comment, up to the end of its line. -/
def dropComment (text : List Char) : List Char := (text.dropWhile (· != '\n')).tail

/-- Drops blanks and comments, at most `fuel` of them. -/
def dropBlanksWith : Nat → List Char → List Char
  | 0, text => text
  | fuel + 1, text =>
    match text.dropWhile Text.isBlank with
    | '#' :: rest => dropBlanksWith fuel (dropComment rest)
    | rest => rest

/-- Drops blanks and comments where they do not count. -/
def dropBlanks (flags : Flags) (text : List Char) : List Char :=
  if flags.spaced then dropBlanksWith (text.length + 1) text else text

/-! ### Classes of ASCII -/

def asciiDigit : CharClass := .range 0x30 0x39

def asciiWord : CharClass := .ofRanges [(0x30, 0x39), (0x41, 0x5A), (0x5F, 0x5F), (0x61, 0x7A)]

def asciiBlank : CharClass := .ofRanges [(0x09, 0x0D), (0x20, 0x20)]

/-- The classes that have a name between colons. -/
def asciiClass? (name : String) : Option CharClass :=
  match name with
  | "alnum" => some (.ofRanges [(0x30, 0x39), (0x41, 0x5A), (0x61, 0x7A)])
  | "alpha" => some (.ofRanges [(0x41, 0x5A), (0x61, 0x7A)])
  | "ascii" => some (.range 0 0x7F)
  | "blank" => some (.ofRanges [(0x09, 0x09), (0x20, 0x20)])
  | "cntrl" => some (.ofRanges [(0, 0x1F), (0x7F, 0x7F)])
  | "digit" => some asciiDigit
  | "graph" => some (.range 0x21 0x7E)
  | "lower" => some (.range 0x61 0x7A)
  | "print" => some (.range 0x20 0x7E)
  | "punct" => some (.ofRanges [(0x21, 0x2F), (0x3A, 0x40), (0x5B, 0x60), (0x7B, 0x7E)])
  | "space" => some asciiBlank
  | "upper" => some (.range 0x41 0x5A)
  | "word" => some asciiWord
  | "xdigit" => some (.ofRanges [(0x30, 0x39), (0x41, 0x46), (0x61, 0x66)])
  | _ => none

/-! ### Named properties -/

/-- A name of a property without its blanks, hyphens and underscores, in lower case, and without
the word `is` in front of it. -/
def plainName (name : List Char) : String :=
  let startsWithIs :=
    match name with
    | i :: s :: _ => (i == 'i' || i == 'I') && (s == 's' || s == 'S')
    | _ => false
  let body := if startsWithIs then name.drop 2 else name
  let kept :=
    (body.filter fun c => c != ' ' && c != '_' && c != '-' && c.toNat < 0x80).map Char.toLower
  if startsWithIs && kept == ['c'] then "isc" else String.ofList kept

/-- The class of a general category or of a group of them. -/
def categoryClass? (name : String) : Option CharClass :=
  let of (categories : List Text.Category) : Option CharClass :=
    some (.property (.ofCategories categories))
  match name with
  | "any" => some .all
  | "ascii" => some (.range 0 0x7F)
  | "assigned" => some (.property .assigned)
  | "l" | "letter" => of Text.letters
  | "lc" | "casedletter" => of Text.casedLetters
  | "lu" | "uppercaseletter" => of [.uppercase]
  | "ll" | "lowercaseletter" => of [.lowercase]
  | "lt" | "titlecaseletter" => of [.titlecase]
  | "lm" | "modifierletter" => of [.modifierLetter]
  | "lo" | "otherletter" => of [.otherLetter]
  | "m" | "mark" | "combiningmark" => of Text.marks
  | "mn" | "nonspacingmark" => of [.nonspacingMark]
  | "mc" | "spacingmark" => of [.spacingMark]
  | "me" | "enclosingmark" => of [.enclosingMark]
  | "n" | "number" => of Text.numbers
  | "nd" | "decimalnumber" | "digit" => of [.decimalNumber]
  | "nl" | "letternumber" => of [.letterNumber]
  | "no" | "othernumber" => of [.otherNumber]
  | "p" | "punctuation" | "punct" => of Text.punctuation
  | "pc" | "connectorpunctuation" => of [.connector]
  | "pd" | "dashpunctuation" => of [.dash]
  | "ps" | "openpunctuation" => of [.openPunctuation]
  | "pe" | "closepunctuation" => of [.closePunctuation]
  | "pi" | "initialpunctuation" => of [.initialPunctuation]
  | "pf" | "finalpunctuation" => of [.finalPunctuation]
  | "po" | "otherpunctuation" => of [.otherPunctuation]
  | "s" | "symbol" => of Text.symbols
  | "sm" | "mathsymbol" => of [.mathSymbol]
  | "sc" | "currencysymbol" => of [.currency]
  | "sk" | "modifiersymbol" => of [.modifierSymbol]
  | "so" | "othersymbol" => of [.otherSymbol]
  | "z" | "separator" => of Text.separators
  | "zs" | "spaceseparator" => of [.spaceSeparator]
  | "zl" | "lineseparator" => of [.lineSeparator]
  | "zp" | "paragraphseparator" => of [.paragraphSeparator]
  | "cc" | "control" | "cntrl" => of [.control]
  | "cf" | "format" => of [.format]
  | "co" | "privateuse" => of [.privateUse]
  | "cs" | "surrogate" => some .nothing
  | "cn" | "unassigned" => some (.complement (.property .assigned))
  | "c" | "other" =>
    some (.union (.property (.ofCategories Text.assignedOthers))
      (.complement (.property .assigned)))
  | _ => none

/-- The class of a script. -/
def scriptClass? (name : String) : Option CharClass :=
  if Text.scripts.any fun script => script.names.contains name then
    some (.property (.ofScript name))
  else none

/-- The class of a property that is given by one name. -/
def namedClass? (name : String) : Option CharClass :=
  match name with
  | "alphabetic" | "alpha" => some (.property .alphabetic)
  | "lowercase" | "lower" => some (.property .lowercase)
  | "uppercase" | "upper" => some (.property .uppercase)
  | "whitespace" | "wspace" | "space" => some (.property .blank)
  | _ => (categoryClass? name).or (scriptClass? name)

/-- Cuts a text at the first place where a separator stands. -/
def cutAt? (separator : List Char) : List Char → Option (List Char × List Char)
  | [] => none
  | c :: rest =>
    if separator.isPrefixOf (c :: rest) then some ([], (c :: rest).drop separator.length)
    else (cutAt? separator rest).map fun (front, behind) => (c :: front, behind)

/-- The class of a property that is given by a name or by a name and a value. -/
def propertyClass? (text : List Char) : Option CharClass :=
  let valued (cut : List Char × List Char) : Option CharClass :=
    match plainName cut.1 with
    | "generalcategory" | "gc" => categoryClass? (plainName cut.2)
    | "script" | "sc" => scriptClass? (plainName cut.2)
    | _ => none
  match cutAt? ['!', '='] text with
  | some cut => (valued cut).map .complement
  | none =>
    match (cutAt? [':'] text).or (cutAt? ['='] text) with
    | some cut => valued cut
    | none => namedClass? (plainName text)

/-! ### Escapes -/

/-- One item of a pattern, as it stands alone or in a class. -/
inductive Item where
  | char (c : Char)
  /-- A byte of two hexadecimal digits that is no character of ASCII. -/
  | byte (n : Nat)
  | chars (c : CharClass)
  | place (a : Assertion)

/-- The signs that mean something unless a backslash stands before them. -/
def isSpecial (c : Char) : Bool := "\\.+*?()|[]\x7b\x7d^$#&-~".toList.contains c

/-- A backslash may stand before the character, which then stands for itself. -/
def mayBeEscaped (c : Char) : Bool :=
  isSpecial c || (c.toNat < 0x80 && !c.isAlphanum && c != '<' && c != '>')

/-- The character of a code point. -/
def charOf? (n : Nat) : Option Char := if n.isValidChar then some (Char.ofNat n) else none

/-- Reads exactly `count` characters, blanks that do not count apart. -/
def takeSpaced? (flags : Flags) : Nat → List Char → Option (List Char × List Char)
  | 0, text => some ([], text)
  | count + 1, text =>
    match dropBlanks flags text with
    | [] => none
    | c :: rest => (takeSpaced? flags count rest).map fun (front, behind) => (c :: front, behind)

/-- Reads up to a closing brace, which is dropped; at most `fuel` characters. -/
def takeBraced? (flags : Flags) : Nat → List Char → Option (List Char × List Char)
  | 0, _ => none
  | fuel + 1, text =>
    match dropBlanks flags text with
    | [] => none
    | '\x7d' :: rest => some ([], rest)
    | c :: rest => (takeBraced? flags fuel rest).map fun (front, behind) => (c :: front, behind)

/-- Reads a character given by its code point, behind the letter that says how many digits there
are unless they stand in braces. -/
def readCodePoint? (flags : Flags) (count : Nat) (text : List Char) : Option (Item × List Char) :=
  match dropBlanks flags text with
  | '\x7b' :: rest =>
    match takeBraced? flags (rest.length + 1) rest with
    | none | some ([], _) => none
    | some (digits, rest) =>
      ((Number.readHex? digits).bind charOf?).map fun c => (.char c, dropBlanks flags rest)
  | text =>
    match takeSpaced? flags count text with
    | none => none
    | some (digits, rest) =>
      match (Number.readHex? digits).bind charOf? with
      | none => none
      | some c =>
        let rest := dropBlanks flags rest
        if count = 2 ∧ ¬ flags.unicode ∧ 0x80 ≤ c.toNat then some (.byte c.toNat, rest)
        else some (.char c, rest)

/-- The characters of words, under the settings. -/
def wordClass (flags : Flags) : CharClass := if flags.unicode then .property .word else asciiWord

/-- The class of the letters `d`, `s` and `w`. -/
def letterClass? (flags : Flags) (letter : Char) : Option CharClass :=
  match letter with
  | 'd' => some (if flags.unicode then .property (.ofCategories [.decimalNumber]) else asciiDigit)
  | 's' => some (if flags.unicode then .property .blank else asciiBlank)
  | 'w' => some (wordClass flags)
  | _ => none

/-- Reads the name of a property behind the letter `p` or `P`. -/
def readProperty? (flags : Flags) (negated : Bool) (text : List Char) : Option (Item × List Char) :=
  let named? : Option (List Char × List Char) :=
    match dropBlanks flags text with
    | [] => none
    | '\x7b' :: rest => takeBraced? flags (rest.length + 1) rest
    | c :: rest => if c = '\\' then none else some ([c], dropBlanks flags rest)
  match named? with
  | none => none
  | some (name, rest) =>
    if flags.unicode then
      (propertyClass? name).map fun c =>
        (.chars ((CharClass.foldedIf flags.ignoreCase c).negatedIf negated), rest)
    else none

/-- The special boundaries that a name in braces may ask for. -/
def boundaryNamed? (word : CharClass) (name : String) : Option Assertion :=
  match name with
  | "start" => some (.wordStart word)
  | "end" => some (.wordEnd word)
  | "start-half" => some (.noWordBefore word)
  | "end-half" => some (.noWordBehind word)
  | _ => none

/-- Reads what may follow the letter `b`: the name of a special boundary in braces.  Braces that
cannot hold such a name are left for a repetition. -/
def readBoundary? (flags : Flags) (text : List Char) : Option (Item × List Char) :=
  let word := wordClass flags
  let isNameChar (c : Char) : Bool := c.isAlpha || c == '-'
  match text with
  | '\x7b' :: rest =>
    match dropBlanks flags rest with
    | [] => none
    | c :: rest =>
      if isNameChar c then
        match takeBraced? flags (rest.length + 2) (c :: rest) with
        | none => none
        | some (name, rest) =>
          (boundaryNamed? word (String.ofList name)).map fun a => (.place a, rest)
      else some (.place (.boundary word), text)
  | text => some (.place (.boundary word), text)

/-- Reads an escape, behind its backslash. -/
def readEscape? (flags : Flags) : List Char → Option (Item × List Char)
  | [] => none
  | c :: rest =>
    if '0' ≤ c ∧ c ≤ '9' then none
    else if mayBeEscaped c then some (.char c, rest)
    else
      match c with
      | 'x' => readCodePoint? flags 2 rest
      | 'u' => readCodePoint? flags 4 rest
      | 'U' => readCodePoint? flags 8 rest
      | 'p' => readProperty? flags false rest
      | 'P' => readProperty? flags true rest
      | 'd' | 's' | 'w' => (letterClass? flags c).map fun set => (.chars set, rest)
      | 'D' | 'S' | 'W' =>
        (letterClass? flags c.toLower).map fun set => (.chars (.complement set), rest)
      | 'a' => some (.char '\x07', rest)
      | 'f' => some (.char '\x0c', rest)
      | 't' => some (.char '\t', rest)
      | 'n' => some (.char '\n', rest)
      | 'r' => some (.char '\r', rest)
      | 'v' => some (.char '\x0b', rest)
      | 'A' => some (.place .textStart, rest)
      | 'z' => some (.place .textEnd, rest)
      | 'b' => readBoundary? flags rest
      | 'B' => some (.place (.noBoundary (wordClass flags)), rest)
      | '<' => some (.place (.wordStart (wordClass flags)), rest)
      | '>' => some (.place (.wordEnd (wordClass flags)), rest)
      | _ => none

/-! ### Classes in brackets -/

/-- The operations between the parts of a class. -/
inductive ClassOperation where
  | intersection
  | difference
  | symmetricDifference
  deriving DecidableEq, Repr

def ClassOperation.apply : ClassOperation → CharClass → CharClass → CharClass
  | intersection, a, b => .intersection a b
  | difference, a, b => .difference a b
  | symmetricDifference, a, b => .symmetricDifference a b

/-- A part of a class and the operation that waits for the next one. -/
abbrev Pending := Option (ClassOperation × CharClass)

/-- Carries out the operation that waits. -/
def Pending.close (pending : Pending) (part : CharClass) : CharClass :=
  match pending with
  | some (operation, before) => operation.apply before part
  | none => part

/-- The code point of an item that may end an interval. -/
def Item.codePoint? : Item → Option Nat
  | .char c => some c.toNat
  | .byte n => some n
  | _ => none

/-- An interval of a class.  Without Unicode, characters beyond ASCII have no place in a class. -/
def interval? (flags : Flags) (low high : Item) : Option CharClass :=
  let plain (item : Item) : Bool :=
    match item with
    | .char c => flags.unicode || c.toNat < 0x80
    | _ => true
  match low.codePoint?, high.codePoint? with
  | some a, some b =>
    if a ≤ b ∧ plain low ∧ plain high then
      some (CharClass.foldedIf flags.ignoreCase (.range a b))
    else none
  | _, _ => none

/-- Reads one item of a class. -/
def readClassItem? (flags : Flags) : List Char → Option (Item × List Char)
  | [] => none
  | '\\' :: rest => readEscape? flags rest
  | c :: rest => some (.char c, rest)

/-- Reads an item or an interval of a class. -/
def readInterval? (flags : Flags) (text : List Char) : Option (CharClass × List Char) :=
  match readClassItem? flags text with
  | none => none
  | some (low, rest) =>
    let alone (rest : List Char) : Option (CharClass × List Char) :=
      match low with
      | .chars c => some (c, rest)
      | .place _ => none
      | item => (interval? flags item item).map fun c => (c, rest)
    match dropBlanks flags rest with
    | [] => none
    | '-' :: behind =>
      match dropBlanks flags behind with
      | [] => none
      | ']' :: _ => alone ('-' :: behind)
      | '-' :: _ => alone ('-' :: behind)
      | next =>
        match readClassItem? flags next with
        | none => none
        | some (high, rest) => (interval? flags low high).map fun c => (c, rest)
    | rest => alone rest

/-- Reads the name of a class between colons, behind its bracket. -/
def readAsciiClass? (flags : Flags) (text : List Char) : Option (CharClass × List Char) :=
  match text with
  | ':' :: rest =>
    let (negated, rest) :=
      match rest with
      | '^' :: rest => (true, rest)
      | rest => (false, rest)
    match cutAt? [':'] rest with
    | some (name, ']' :: rest) =>
      (asciiClass? (String.ofList name)).map fun c =>
        ((CharClass.foldedIf flags.ignoreCase c).negatedIf negated, rest)
    | _ => none
  | _ => none

/-- The hyphens at the start of a class stand for themselves. -/
def readHyphens (flags : Flags) : Nat → CharClass → List Char → CharClass × List Char
  | fuel + 1, known, '-' :: rest =>
    readHyphens flags fuel (.union known (.single '-')) (dropBlanks flags rest)
  | _, known, text => (known, text)

/-- Reads the start of a class behind its bracket: the sign of negation, and the hyphens and the
bracket that stand for themselves there. -/
def readClassStart (flags : Flags) (text : List Char) : Bool × CharClass × List Char :=
  let text := dropBlanks flags text
  let (negated, text) :=
    match text with
    | '^' :: rest => (true, dropBlanks flags rest)
    | text => (false, text)
  match readHyphens flags text.length .nothing text with
  | (.nothing, ']' :: rest) => (negated, .single ']', dropBlanks flags rest)
  | (known, rest) => (negated, known, rest)

/-- Reads the parts of a class up to its closing bracket, given those read before; at most `fuel`
parts. -/
def readParts? (flags : Flags) :
    Nat → Bool → Pending → CharClass → List Char → Option (CharClass × List Char)
  | 0, _, _, _, _ => none
  | fuel + 1, negated, pending, known, text =>
    match dropBlanks flags text with
    | [] => none
    | ']' :: rest => some ((pending.close known).negatedIf negated, rest)
    | '[' :: rest =>
      match readAsciiClass? flags rest with
      | some (c, rest) => readParts? flags fuel negated pending (.union known c) rest
      | none =>
        let (innerNegated, start, rest) := readClassStart flags rest
        match readParts? flags fuel innerNegated none start rest with
        | none => none
        | some (c, rest) => readParts? flags fuel negated pending (.union known c) rest
    | '&' :: '&' :: rest =>
      readParts? flags fuel negated (some (.intersection, pending.close known)) .nothing rest
    | '-' :: '-' :: rest =>
      readParts? flags fuel negated (some (.difference, pending.close known)) .nothing rest
    | '~' :: '~' :: rest =>
      readParts? flags fuel negated (some (.symmetricDifference, pending.close known)) .nothing rest
    | text =>
      match readInterval? flags text with
      | none => none
      | some (c, rest) => readParts? flags fuel negated pending (.union known c) rest

/-- Without Unicode a class must not hold the bytes of which other characters are made. -/
def staysWithinAscii (c : CharClass) : Bool :=
  (List.range 0x80).all fun n => !c.has (Char.ofNat (0x80 + n))

/-- Reads a class, behind its first bracket. -/
def readClass? (flags : Flags) (text : List Char) : Option (CharClass × List Char) :=
  let (negated, start, rest) := readClassStart flags text
  match readParts? flags (text.length + 1) negated none start rest with
  | none => none
  | some (c, rest) => if flags.unicode || staysWithinAscii c then some (c, rest) else none

/-! ### Single items -/

/-- The pattern of one character. -/
def ofChar? (flags : Flags) (c : Char) : Option Pattern :=
  if flags.ignoreCase ∧ ¬ flags.unicode ∧ 0x80 ≤ c.toNat then none
  else if flags.ignoreCase ∧ ¬ flags.unicode then
    some (.oneOf (.intersection (.folded (.single c)) (.range 0 0x7F)))
  else some (.oneOf (CharClass.foldedIf flags.ignoreCase (.single c)))

/-- The pattern of an item that stands alone. -/
def ofItem? (flags : Flags) : Item → Option Pattern
  | .char c => ofChar? flags c
  | .byte _ => none
  | .chars c => if flags.unicode || staysWithinAscii c then some (.oneOf c) else none
  | .place a => some (.place a)

/-- The pattern of a point. -/
def dot? (flags : Flags) : Option Pattern :=
  if ¬ flags.unicode then none
  else if flags.dotAll then some (.oneOf .all)
  else if flags.anyLineEnd then
    some (.oneOf (.complement (.union (.single '\n') (.single '\r'))))
  else some (.oneOf (.complement (.single '\n')))

/-- The pattern of a circumflex. -/
def caret (flags : Flags) : Pattern :=
  .place (if flags.multiLine then (if flags.anyLineEnd then .lineStartAny else .lineStart)
    else .textStart)

/-- The pattern of a dollar sign. -/
def dollar (flags : Flags) : Pattern :=
  .place (if flags.multiLine then (if flags.anyLineEnd then .lineEndAny else .lineEnd)
    else .textEnd)

/-! ### Repetitions -/

/-- The greatest number that a repetition may name. -/
def countLimit : Nat := 2 ^ 32 - 1

/-- Reads a number, with blanks on both sides of it; `none` inside when there is no digit. -/
def readCount? (text : List Char) : Option (Option Nat × List Char) :=
  let text := text.dropWhile Text.isBlank
  let digits := text.takeWhile Char.isDigit
  let rest := (text.dropWhile Char.isDigit).dropWhile Text.isBlank
  if digits.isEmpty then some (none, rest)
  else
    let n := digits.foldl (fun n c => n * 10 + (c.toNat - 48)) 0
    if countLimit < n then none else some (some n, rest)

/-- Reads the limits of a repetition, behind the opening brace. -/
def readCounts? (flags : Flags) (text : List Char) : Option (Nat × Option Nat × List Char) :=
  match readCount? (dropBlanks flags text) with
  | none | some (none, _) => none
  | some (some min, rest) =>
    match rest with
    | '\x7d' :: rest => some (min, some min, rest)
    | ',' :: rest =>
      match dropBlanks flags rest with
      | '\x7d' :: rest => some (min, none, rest)
      | rest =>
        match readCount? rest with
        | some (some max, '\x7d' :: rest) => if min ≤ max then some (min, some max, rest) else none
        | _ => none
    | _ => none

/-- Drops the sign that asks for few matches rather than many. -/
def dropLazy (text : List Char) : List Char :=
  match text with
  | '?' :: rest => rest
  | text => text

/-! ### Groups -/

/-- The character may stand in the name of a group, at its start or further on. -/
def isNameChar (first : Bool) (c : Char) : Bool :=
  c == '_' || (if first then Text.isAlphabetic c
    else Text.isAlphanumeric c || c == '.' || c == '[' || c == ']')

/-- Reads the name of a group up to the sign that ends it. -/
def readName? (text : List Char) : Option (List Char × List Char) :=
  match cutAt? ['>'] text with
  | some (first :: name, rest) =>
    if isNameChar true first && name.all (isNameChar false) then some (first :: name, rest)
    else none
  | _ => none

/-- What an opening bracket opens. -/
inductive Opening where
  /-- Flags for the rest of the group around it. -/
  | flags (flags : Flags)
  /-- A group, read under its own flags. -/
  | group (flags : Flags)
  /-- A group with a name. -/
  | named (name : List Char)

/-- Reads what follows an opening bracket up to the body of the group. -/
def readOpening? (flags : Flags) (text : List Char) : Option (Opening × List Char) :=
  match dropBlanks flags text with
  | '?' :: 'P' :: '<' :: rest => (readName? rest).map fun (name, rest) => (.named name, rest)
  | '?' :: '<' :: rest => (readName? rest).map fun (name, rest) => (.named name, rest)
  | '?' :: rest =>
    match readFlags? flags [] rest with
    | none => none
    | some (set, inner, ending, rest) =>
      if ending = ')' then if set then some (.flags inner, rest) else none
      else some (.group inner, rest)
  | text => some (.group flags, text)

/-! ### Bodies -/

/-- What has been read of a group. -/
structure Progress where
  flags : Flags
  names : List (List Char)
  /-- The finished alternatives, the last first. -/
  branches : List Pattern
  /-- The items of the alternative being read, the last first; flags are no items to repeat. -/
  items : List (Option Pattern)

/-- A group of which nothing has been read. -/
def Progress.start (flags : Flags) (names : List (List Char)) : Progress := ⟨flags, names, [], []⟩

def Progress.push (p : Progress) (item : Pattern) : Progress :=
  { p with items := some item :: p.items }

/-- The alternative being read, as a pattern. -/
def Progress.branch (p : Progress) : Pattern :=
  match p.items.reverse.filterMap id with
  | [] => .empty
  | [item] => item
  | items => .sequence items

/-- The whole group, as a pattern. -/
def Progress.finish (p : Progress) : Pattern :=
  match p.branches with
  | [] => p.branch
  | branches => .choice (branches.reverse ++ [p.branch])

/-- Repeats the last item. -/
def Progress.repeat? (p : Progress) (min : Nat) (max : Option Nat) : Option Progress :=
  match p.items with
  | some item :: items => some { p with items := some (.repetition item min max) :: items }
  | _ => none

/-- Reads a group up to its closing bracket or the end of the text; at most `fuel` items. -/
def readBody? : Nat → Progress → List Char → Option (Progress × List Char)
  | 0, _, _ => none
  | fuel + 1, p, text =>
    match dropBlanks p.flags text with
    | [] => some (p, [])
    | ')' :: rest => some (p, ')' :: rest)
    | '|' :: rest => readBody? fuel { p with branches := p.branch :: p.branches, items := [] } rest
    | '(' :: rest =>
      match readOpening? p.flags rest with
      | none => none
      | some (.flags flags, rest) =>
        readBody? fuel { p with flags := flags, items := none :: p.items } rest
      | some (.group flags, rest) =>
        match readBody? fuel (Progress.start flags p.names) rest with
        | some (inner, ')' :: rest) =>
          readBody? fuel ({ p with names := inner.names }.push (.group inner.finish)) rest
        | _ => none
      | some (.named name, rest) =>
        if p.names.contains name then none
        else
          match readBody? fuel (Progress.start p.flags (name :: p.names)) rest with
          | some (inner, ')' :: rest) =>
            readBody? fuel ({ p with names := inner.names }.push (.group inner.finish)) rest
          | _ => none
    | '[' :: rest =>
      match readClass? p.flags rest with
      | none => none
      | some (c, rest) => readBody? fuel (p.push (.oneOf c)) rest
    | '?' :: rest =>
      match p.repeat? 0 (some 1) with
      | none => none
      | some p => readBody? fuel p (dropLazy rest)
    | '*' :: rest =>
      match p.repeat? 0 none with
      | none => none
      | some p => readBody? fuel p (dropLazy rest)
    | '+' :: rest =>
      match p.repeat? 1 none with
      | none => none
      | some p => readBody? fuel p (dropLazy rest)
    | '\x7b' :: rest =>
      match readCounts? p.flags rest with
      | none => none
      | some (min, max, rest) =>
        match p.repeat? min max with
        | none => none
        | some p => readBody? fuel p (dropLazy (dropBlanks p.flags rest))
    | '\\' :: rest =>
      match readEscape? p.flags rest with
      | none => none
      | some (item, rest) =>
        match ofItem? p.flags item with
        | none => none
        | some item => readBody? fuel (p.push item) rest
    | '.' :: rest =>
      match dot? p.flags with
      | none => none
      | some item => readBody? fuel (p.push item) rest
    | '^' :: rest => readBody? fuel (p.push (caret p.flags)) rest
    | '$' :: rest => readBody? fuel (p.push (dollar p.flags)) rest
    | c :: rest =>
      match ofChar? p.flags c with
      | none => none
      | some item => readBody? fuel (p.push item) rest

/-! ### Whole patterns -/

/-- How deep a pattern may nest. -/
def depthLimit : Nat := 250

/-- How many steps a pattern may unfold to. -/
def sizeLimit : Nat := 327680

/-- Why a pattern is refused. -/
inductive Fault where
  | malformed
  | tooLarge
  deriving DecidableEq, Repr

def Fault.message : Fault → String
  | malformed => "regex parse error"
  | tooLarge => "Compiled regex exceeds size limit of 10485760 bytes."

/-- Reads a pattern. -/
def read (text : String) : Except Fault Pattern :=
  let chars := text.toList
  match readBody? (chars.length + 1) (Progress.start Flags.initial []) chars with
  | some (p, []) =>
    if depthLimit < p.finish.depth then .error .malformed
    else if sizeLimit < p.finish.size then .error .tooLarge
    else .ok p.finish
  | _ => .error .malformed

end Strata.Pattern
