/-
**Tables of code points.**

A set of characters is written as in the data files of the standard: code points in hexadecimal,
separated by blanks, with a hyphen between the two ends of an interval.

* `readRanges` — the intervals that lines of such a table spell;
* `inRanges` — membership of a character.
-/

import Strata.Number.Hex

set_option relaxedAutoImplicit false
set_option autoImplicit false

namespace Strata.Text

/-- What is known while a line is read: the intervals so far, the lower end of the one being read
if it has been seen, and the number being read. -/
structure RangeReader where
  done : List (Nat × Nat)
  low : Option Nat
  number : Nat

/-- Reads one character of a line. -/
def RangeReader.step (r : RangeReader) (c : Char) : RangeReader :=
  if c = '-' then { r with low := some r.number, number := 0 }
  else if c = ' ' then ⟨(r.low.getD r.number, r.number) :: r.done, none, 0⟩
  else { r with number := r.number * 16 + (Number.hexValue? c).getD 0 }

/-- The intervals that a line spells. -/
def readLine (line : String) : List (Nat × Nat) :=
  ((line.toList ++ [' ']).foldl RangeReader.step ⟨[], none, 0⟩).done.reverse

/-- The intervals that the lines of a table spell. -/
def readRanges (lines : List String) : List (Nat × Nat) := lines.flatMap readLine

/-- The character lies in one of the intervals. -/
def inRanges (ranges : List (Nat × Nat)) (c : Char) : Bool :=
  ranges.any fun range => decide (range.1 ≤ c.toNat) && decide (c.toNat ≤ range.2)

end Strata.Text
