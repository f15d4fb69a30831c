/-
**The words of a document.**

Keys, texts, numbers and dates as they are written.  Each reader takes its word from the front of a
text and returns the rest.

* `readKey?` — a bare or quoted key, and `readPath?` — keys with dots between them;
* `readText?` — the four kinds of quoted text;
* `readNumber?` — integers and numbers with a fraction;
* `readDate?` — dates, times and both together.
-/

import Strata.Number.Hex
import Strata.Number.Reader
import Strata.Toml.Node

set_option relaxedAutoImplicit false
set_option autoImplicit false

namespace Strata.Toml

/-! ### Blanks and characters -/

/-- A blank within a line. -/
def isBlank (c : Char) : Bool := c == ' ' || c == '\t'

def dropBlanks (text : List Char) : List Char := text.dropWhile isBlank

/-- A character that may stand in comments and texts as it is. -/
def isPlain (c : Char) : Bool := c == '\t' || (0x20 ≤ c.toNat && c.toNat != 0x7F)

/-- Drops a line end. -/
def dropLineEnd? : List Char → Option (List Char)
  | '\n' :: rest => some rest
  | '\r' :: '\n' :: rest => some rest
  | _ => none

/-- Drops the blanks, the comment and the line end that may close a line, or the end of the
document. -/
def endLine? (text : List Char) : Option (List Char) :=
  let rest :=
    match dropBlanks text with
    | '#' :: rest => rest.dropWhile isPlain
    | rest => rest
  if rest.isEmpty then some [] else dropLineEnd? rest

/-- Drops blanks, comments and line ends, at most `fuel` lines of them. -/
def dropLinesWith : Nat → List Char → List Char
  | 0, text => text
  | fuel + 1, text =>
    let text := dropBlanks text
    let rest :=
      match text with
      | '#' :: rest => rest.dropWhile isPlain
      | rest => rest
    match dropLineEnd? rest with
    | some rest => dropLinesWith fuel rest
    | none => if rest.isEmpty then [] else text

/-- Drops blanks, comments and line ends. -/
def dropLines (text : List Char) : List Char := dropLinesWith (text.length + 1) text

/-! ### Quoted texts -/

/-- Reads a character given by a number of hexadecimal digits. -/
def readCodePoint? (count : Nat) (text : List Char) : Option (Char × List Char) :=
  let digits := text.take count
  if digits.length = count then
    match Number.readHex? digits with
    | some n => if n.isValidChar then some (Char.ofNat n, text.drop count) else none
    | none => none
  else none

/-- Reads what follows a backslash. -/
def readEscape? : List Char → Option (Char × List Char)
  | 'b' :: rest => some ('\x08', rest)
  | 't' :: rest => some ('\t', rest)
  | 'n' :: rest => some ('\n', rest)
  | 'f' :: rest => some ('\x0c', rest)
  | 'r' :: rest => some ('\r', rest)
  | '"' :: rest => some ('"', rest)
  | '\\' :: rest => some ('\\', rest)
  | 'u' :: rest => readCodePoint? 4 rest
  | 'U' :: rest => readCodePoint? 8 rest
  | _ => none

/-- Reads a text of one line with escapes up to its closing quote; at most `fuel` characters. -/
def readBasic? : Nat → List Char → Option (List Char × List Char)
  | 0, _ => none
  | fuel + 1, text =>
    match text with
    | [] => none
    | '"' :: rest => some ([], rest)
    | '\\' :: rest =>
      match readEscape? rest with
      | none => none
      | some (c, rest) => (readBasic? fuel rest).map fun (cs, rest) => (c :: cs, rest)
    | c :: rest =>
      if isPlain c then (readBasic? fuel rest).map fun (cs, rest) => (c :: cs, rest) else none

/-- Reads a text of one line without escapes up to its closing quote. -/
def readLiteral? (text : List Char) : Option (List Char × List Char) :=
  let body := text.takeWhile fun c => c != '\'' && isPlain c
  match text.drop body.length with
  | '\'' :: rest => some (body, rest)
  | _ => none

/-- The quotes at the front of a text, at most five, if they close a text of several lines: three
close it, and up to two before those belong to it. -/
def closingQuotes? (quote : Char) (text : List Char) : Option (Nat × List Char) :=
  let count := ((text.take 5).takeWhile (· == quote)).length
  if 3 ≤ count then some (count - 3, text.drop count) else none

/-- Drops the blanks and line ends behind a backslash that ends a line. -/
def dropFolded? (text : List Char) : Option (List Char) :=
  match dropLineEnd? (dropBlanks text) with
  | some rest => some (rest.dropWhile fun c => isBlank c || c == '\n' || c == '\r')
  | none => none

/-- Reads a text of several lines up to its closing quotes, with escapes if the quote is double;
at most `fuel` characters. -/
def readLinesText? (quote : Char) : Nat → List Char → Option (List Char × List Char)
  | 0, _ => none
  | fuel + 1, text =>
    match closingQuotes? quote text with
    | some (extra, rest) => some (List.replicate extra quote, rest)
    | none =>
      match text with
      | [] => none
      | '\r' :: '\n' :: rest =>
        (readLinesText? quote fuel rest).map fun (cs, rest) => ('\n' :: cs, rest)
      | c :: rest =>
        if c = '\\' ∧ quote = '"' then
          match dropFolded? rest with
          | some rest => readLinesText? quote fuel rest
          | none =>
            match readEscape? rest with
            | none => none
            | some (c, rest) =>
              (readLinesText? quote fuel rest).map fun (cs, rest) => (c :: cs, rest)
        else if isPlain c ∨ c = '\n' then
          (readLinesText? quote fuel rest).map fun (cs, rest) => (c :: cs, rest)
        else none

/-- Reads a text of several lines behind its opening quotes; a line end right there is dropped. -/
def readLinesTextBody? (quote : Char) (text : List Char) : Option (List Char × List Char) :=
  let body := (dropLineEnd? text).getD text
  readLinesText? quote (body.length + 1) body

/-- Reads a quoted text of any kind. -/
def readText? : List Char → Option (String × List Char)
  | '"' :: '"' :: '"' :: rest =>
    (readLinesTextBody? '"' rest).map fun (cs, rest) => (String.ofList cs, rest)
  | '\'' :: '\'' :: '\'' :: rest =>
    (readLinesTextBody? '\'' rest).map fun (cs, rest) => (String.ofList cs, rest)
  | '"' :: rest =>
    (readBasic? (rest.length + 1) rest).map fun (cs, rest) => (String.ofList cs, rest)
  | '\'' :: rest => (readLiteral? rest).map fun (cs, rest) => (String.ofList cs, rest)
  | _ => none

/-! ### Keys -/

/-- A character of a key without quotes. -/
def isKeyChar (c : Char) : Bool := c.isAlphanum || c == '_' || c == '-'

/-- Reads one key. -/
def readKey? (text : List Char) : Option (String × List Char) :=
  match text with
  | '"' :: rest =>
    (readBasic? (rest.length + 1) rest).map fun (cs, rest) => (String.ofList cs, rest)
  | '\'' :: rest => (readLiteral? rest).map fun (cs, rest) => (String.ofList cs, rest)
  | text =>
    let key := text.takeWhile isKeyChar
    if key.isEmpty then none else some (String.ofList key, text.drop key.length)

/-- Reads keys with dots between them, at most `fuel`: those before the last, and the last. -/
def readPathWith? : Nat → List Char → Option (List String × String × List Char)
  | 0, _ => none
  | fuel + 1, text =>
    match readKey? (dropBlanks text) with
    | none => none
    | some (key, rest) =>
      match dropBlanks rest with
      | '.' :: rest =>
        (readPathWith? fuel rest).map fun (path, last, rest) => (key :: path, last, rest)
      | rest => some ([], key, rest)

/-- How deep keys and values may nest. -/
def depthLimit : Nat := 80

/-- Reads keys with dots between them. -/
def readPath? (text : List Char) : Option (List String × String × List Char) :=
  readPathWith? (depthLimit - 1) text

/-! ### Numbers -/

/-- Every underscore stands between two digits. -/
def isSeparated : List Char → Bool
  | [] => false
  | ['_'] => false
  | [_] => true
  | '_' :: _ => false
  | _ :: '_' :: rest => isSeparated rest
  | _ :: rest => isSeparated rest

/-- Reads digits of a kind with single underscores between them, and returns the digits alone. -/
def readDigits? (isDigit : Char → Bool) (text : List Char) : Option (List Char × List Char) :=
  let body := text.takeWhile fun c => isDigit c || c == '_'
  if isSeparated body then some (body.filter (· != '_'), text.drop body.length) else none

/-- A digit in base 8. -/
def isOctal (c : Char) : Bool := '0' ≤ c && c ≤ '7'

/-- A digit in base 16. -/
def isHex (c : Char) : Bool := c.isDigit || ('a' ≤ c && c ≤ 'f') || ('A' ≤ c && c ≤ 'F')

/-- The number that digits spell in a base. -/
def spell (base : Nat) (digits : List Char) : Nat :=
  digits.foldl (fun n c => n * base + (Number.hexValue? c).getD 0) 0

/-- An integer, if it has 64 bits. -/
def integer? (n : Int) (rest : List Char) : Option (Scalar × List Char) :=
  if Number.leastInt64 ≤ n ∧ n ≤ Number.greatestInt64 then some (.integer n, rest) else none

/-- Reads digits behind a mark of their base. -/
def readBased? (base : Nat) (isDigit : Char → Bool) (text : List Char) :
    Option (Scalar × List Char) :=
  match readDigits? isDigit text with
  | some (digits, rest) => integer? (spell base digits) rest
  | none => none

/-- Reads the digits of a decimal integer, which have no leading zero. -/
def readWhole? (text : List Char) : Option (List Char × List Char) :=
  match text with
  | '0' :: rest => some (['0'], rest)
  | text => readDigits? Char.isDigit text

/-- Reads an exponent, if there is one. -/
def readExponent? : List Char → Option (List Char × List Char)
  | letter :: rest =>
    if letter = 'e' ∨ letter = 'E' then
      match rest with
      | '+' :: rest => (readDigits? Char.isDigit rest).map fun (ds, rest) => ('e' :: ds, rest)
      | '-' :: rest =>
        (readDigits? Char.isDigit rest).map fun (ds, rest) => ('e' :: '-' :: ds, rest)
      | rest => (readDigits? Char.isDigit rest).map fun (ds, rest) => ('e' :: ds, rest)
    else some ([], letter :: rest)
  | [] => some ([], [])

/-- Reads the fraction of a number, if there is one. -/
def readFraction? : List Char → Option (List Char × List Char)
  | '.' :: rest => (readDigits? Char.isDigit rest).map fun (ds, rest) => ('.' :: ds, rest)
  | rest => some ([], rest)

/-- Reads an integer or a number with a fraction or an exponent, behind its sign. -/
def readDecimal? (negative : Bool) (text : List Char) : Option (Scalar × List Char) := do
  let (whole, rest) ← readWhole? text
  let (fraction, rest) ← readFraction? rest
  let (exponent, rest) ← readExponent? rest
  let sign := if negative then ['-'] else []
  if fraction.isEmpty && exponent.isEmpty then
    integer? (if negative then -(spell 10 whole : Int) else spell 10 whole) rest
  else some (.float (String.ofList (sign ++ whole ++ fraction ++ exponent)), rest)

/-- Reads a number behind its sign, where infinity and no number have names. -/
def readUnsigned? (negative : Bool) (text : List Char) : Option (Scalar × List Char) :=
  match text with
  | 'i' :: 'n' :: 'f' :: rest => some (.float (if negative then "-inf" else "inf"), rest)
  | 'n' :: 'a' :: 'n' :: rest => some (.float "nan", rest)
  | text => readDecimal? negative text

/-- Reads a number. -/
def readNumber? (text : List Char) : Option (Scalar × List Char) :=
  match text with
  | '0' :: 'x' :: rest => readBased? 16 isHex rest
  | '0' :: 'o' :: rest => readBased? 8 isOctal rest
  | '0' :: 'b' :: rest => readBased? 2 (fun c => c == '0' || c == '1') rest
  | '+' :: rest => readUnsigned? false rest
  | '-' :: rest => readUnsigned? true rest
  | text => readUnsigned? false text

/-! ### Dates -/

/-- Reads exactly `count` digits as a number within limits. -/
def readField? (count low high : Nat) (text : List Char) : Option (Nat × List Char) :=
  let digits := text.take count
  if digits.length = count ∧ digits.all Char.isDigit then
    let n := spell 10 digits
    if low ≤ n ∧ n ≤ high then some (n, text.drop count) else none
  else none

/-- Reads one character. -/
def readChar? (c : Char) : List Char → Option (List Char)
  | d :: rest => if d = c then some rest else none
  | [] => none

/-- How many days a month has. -/
def daysOf (year month : Nat) : Nat :=
  if month = 2 then
    if year % 4 = 0 ∧ (year % 100 ≠ 0 ∨ year % 400 = 0) then 29 else 28
  else if month = 4 ∨ month = 6 ∨ month = 9 ∨ month = 11 then 30
  else 31

/-- Reads a day of a year. -/
def readDay? (text : List Char) : Option (List Char) := do
  let (year, rest) ← readField? 4 0 9999 text
  let rest ← readChar? '-' rest
  let (month, rest) ← readField? 2 1 12 rest
  let rest ← readChar? '-' rest
  let (_, rest) ← readField? 2 1 (daysOf year month) rest
  return rest

/-- Drops the fraction of a second, if there is one. -/
def dropSecondFraction? : List Char → Option (List Char)
  | '.' :: rest =>
    let digits := rest.takeWhile Char.isDigit
    if digits.isEmpty then none else some (rest.drop digits.length)
  | rest => some rest

/-- Reads a time of day. -/
def readTime? (text : List Char) : Option (List Char) := do
  let (_, rest) ← readField? 2 0 23 text
  let rest ← readChar? ':' rest
  let (_, rest) ← readField? 2 0 59 rest
  let rest ← readChar? ':' rest
  let (_, rest) ← readField? 2 0 60 rest
  dropSecondFraction? rest

/-- Reads a distance from universal time, if there is one. -/
def readOffset? : List Char → Option (List Char)
  | [] => some []
  | c :: rest =>
    if c = 'Z' ∨ c = 'z' then some rest
    else if c = '+' ∨ c = '-' then do
      let (_, rest) ← readField? 2 0 23 rest
      let rest ← readChar? ':' rest
      let (_, rest) ← readField? 2 0 59 rest
      return rest
    else some (c :: rest)

/-- Reads a day with or without a time, or a time. -/
def readDateEnd? (text : List Char) : Option (List Char) :=
  match readDay? text with
  | some rest =>
    match rest with
    | c :: time =>
      if c = 'T' ∨ c = 't' then (readTime? time).bind readOffset?
      else if c = ' ' then
        match readTime? time with
        | some rest => readOffset? rest
        | none => some rest
      else some rest
    | [] => some []
  | none => readTime? text

/-- Reads a date, a time or both. -/
def readDate? (text : List Char) : Option (Scalar × List Char) :=
  (readDateEnd? text).map fun rest =>
    (.date (String.ofList (text.take (text.length - rest.length))), rest)

end Strata.Toml
