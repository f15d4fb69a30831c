/-
**Quoted texts.**

A text in double quotes on one line.  What has no shape of its own in print — controls, separators,
characters that join the one before them, code points without a character — is written by its
number.

* `isPrintable`, `isExtending` — what is written as it is;
* `quoted` — the quoted text.
-/

import Strata.Text.Category

set_option relaxedAutoImplicit false
set_option autoImplicit false

namespace Strata.Text

/-- The characters beside nonspacing and enclosing marks that extend the character before them. -/
def extraExtendingRanges : List (Nat × Nat) :=
  readRanges
    ["9BE 9D7 B3E B57 BBE BD7 CC2 CD5-CD6 D3E D57 DCF DDF 1B35 200C 302E-302F FF9E-FF9F 1133E",
     "11357 114B0 114BD 115AF 11930 1D165 1D16E-1D172 E0020-E007F"]

/-- A character that extends the one before it. -/
def isExtending (c : Char) : Bool :=
  hasAny [.nonspacingMark, .enclosingMark] c || inRanges extraExtendingRanges c

/-- A character that is seen in print, or the plain space. -/
def isPrintable (c : Char) : Bool :=
  c == ' ' || (isAssigned c && !hasAny (assignedOthers ++ separators) c)

/-- A character by its number. -/
def numbered (c : Char) : List Char :=
  ['\\', 'u', '\x7b'] ++ Nat.toDigits 16 c.toNat ++ ['\x7d']

/-- A character as it stands between quotes. -/
def quotedChar (c : Char) : List Char :=
  if c = '"' ∨ c = '\\' then ['\\', c]
  else if c = '\n' then ['\\', 'n']
  else if c = '\r' then ['\\', 'r']
  else if c = '\t' then ['\\', 't']
  else if c = '\x00' then ['\\', '0']
  else if isPrintable c && !isExtending c then [c]
  else numbered c

/-- The text in quotes. -/
def quoted (text : String) : String :=
  String.ofList ('"' :: text.toList.flatMap quotedChar ++ ['"'])

end Strata.Text
