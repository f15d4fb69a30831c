/-
**Writing texts.**

A text that holds quotes or backslashes is written without escapes in single quotes if it can be;
any other in double quotes, with escapes.  A text with line ends stands on lines of its own between
three quotes.

* `isLiteral` — the text is written without escapes;
* `escape` — a character in double quotes;
* `writeText` — the written text.
-/

import Strata.Toml.Lexeme

set_option relaxedAutoImplicit false
set_option autoImplicit false

namespace Strata.Toml

/-- The number of single quotes at the front of a text. -/
def leadingQuotes (text : List Char) : Nat := (text.takeWhile (· == '\'')).length

/-- Three single quotes stand side by side somewhere. -/
def hasThreeQuotes : List Char → Bool
  | [] => false
  | c :: rest => 3 ≤ leadingQuotes (c :: rest) || hasThreeQuotes rest

/-- A text gains from standing without escapes and can stand so. -/
def isLiteral (text : List Char) : Bool :=
  text.any (fun c => c == '"' || c == '\\') && text.all (fun c => isPlain c || c == '\n') &&
    !hasThreeQuotes text && text.getLast? != some '\''

/-- A character in double quotes; a line end stands for itself between three of them. -/
def escape (lines : Bool) (c : Char) : List Char :=
  if c = '\x08' then ['\\', 'b']
  else if c = '\t' then ['\\', 't']
  else if c = '\n' then if lines then ['\n'] else ['\\', 'n']
  else if c = '\x0c' then ['\\', 'f']
  else if c = '\r' then ['\\', 'r']
  else if c = '"' ∨ c = '\\' then ['\\', c]
  else if isPlain c then [c]
  else
    ['\\', 'u', '0', '0', Number.upperHexDigit (c.toNat / 16), Number.upperHexDigit (c.toNat % 16)]

/-- What encloses a text: its opening and its closing. -/
def enclosure (quote : Char) (lines three : Bool) : List Char × List Char :=
  if lines then ([quote, quote, quote, '\n'], [quote, quote, quote])
  else if three then ([quote, quote, quote], [quote, quote, quote])
  else ([quote], [quote])

/-- A text as it is written. -/
def writeText (text : String) : String :=
  let chars := text.toList
  let lines := chars.contains '\n'
  if isLiteral chars then
    let (opening, closing) := enclosure '\'' lines (chars.contains '\'')
    String.ofList (opening ++ chars ++ closing)
  else
    let (opening, closing) := enclosure '"' lines false
    String.ofList (opening ++ chars.flatMap (escape lines) ++ closing)

end Strata.Toml
