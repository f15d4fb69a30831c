/-
**Decimal text of a double.**

The text has the fewest digits that read back as the same double.  On the grid of the decimals of
`n` digits only the two neighbours of the number can be the nearest that read back, so the grids
of 1, 2, …, 17 digits are tried in turn; of two neighbours that both read back the nearer is
written, and of two equally near ones the greater.  Notation is always positional: no exponent,
and no point after a whole number.

* `Decimal` — `digits · 10 ^ exponent`, with `Decimal.toFloat` and `Decimal.text`;
* `neighbours` — the two decimals of a grid around a positive number, the nearer first;
* `shortest` — the fewest digits that read back;
* `text` — the text of any double.
-/

import Strata.Number.Binary

set_option relaxedAutoImplicit false
set_option autoImplicit false

namespace Strata.Number

/-- The number `digits · 10 ^ exponent`. -/
structure Decimal where
  digits : Nat
  exponent : Int
  deriving DecidableEq, Repr

/-- The double nearest to a decimal, ties to the even one. -/
def Decimal.toFloat (d : Decimal) : Float :=
  Float.ofScientific d.digits (decide (d.exponent < 0)) d.exponent.natAbs

/-! ### The grids -/

/-- How many decimal digits a number has; zero has none. -/
def digitCount (n : Nat) : Nat := if n = 0 then 0 else (Nat.toDigits 10 n).length

/-- The `k` with `10 ^ (k - 1) ≤ num / den < 10 ^ k`, for positive `num` and `den`. -/
def decade (num den : Nat) : Int :=
  if den ≤ num then digitCount (num / den) else 1 - digitCount ((den - 1) / num)

/-- The multiples of `10 ^ unit` next to `num / den`, the nearer one first and the greater one
first when both are equally near. -/
def neighbours (num den : Nat) (unit : Int) : List Decimal :=
  let num := num * 10 ^ (-unit).toNat
  let den := den * 10 ^ unit.toNat
  let below : Decimal := ⟨num / den, unit⟩
  let above : Decimal := ⟨num / den + 1, unit⟩
  if num % den = 0 then [below]
  else if 2 * (num % den) < den then [below, above] else [above, below]

/-- The decimal that equals `mantissa · 2 ^ exponent`. -/
def exactly (mantissa : Nat) (exponent : Int) : Decimal :=
  if 0 ≤ exponent then ⟨mantissa * 2 ^ exponent.toNat, 0⟩
  else ⟨mantissa * 5 ^ (-exponent).toNat, exponent⟩

/-- The decimal of fewest digits that reads back as the positive double
`mantissa · 2 ^ exponent`, the nearest one of those. -/
def shortest (mantissa : Nat) (exponent : Int) : Decimal :=
  let num := mantissa * 2 ^ exponent.toNat
  let den := 2 ^ (-exponent).toNat
  let target := (exactly mantissa exponent).toFloat
  let top := decade num den
  let readsBack (d : Decimal) : Bool := d.toFloat == target
  ((List.range 17).findSome? fun (n : Nat) =>
      (neighbours num den (top - (n + 1 : Nat))).find? readsBack).getD (exactly mantissa exponent)

/-! ### Writing -/

/-- The zeros at the end of a fraction say nothing. -/
def dropTrailingZeros (fraction : List Char) : List Char :=
  (fraction.reverse.dropWhile (· == '0')).reverse

/-- Positional notation: no exponent, and no point after a whole number. -/
def Decimal.text (d : Decimal) : String :=
  let digits := (Nat.repr d.digits).toList
  if 0 ≤ d.exponent then
    String.ofList (digits ++ List.replicate d.exponent.toNat '0')
  else
    let places := (-d.exponent).toNat
    let padded := List.replicate (places + 1 - digits.length) '0' ++ digits
    let whole := padded.take (padded.length - places)
    let fraction := dropTrailingZeros (padded.drop (padded.length - places))
    String.ofList (if fraction.isEmpty then whole else whole ++ '.' :: fraction)

/-- The text of a double. -/
def text (x : Float) : String :=
  match reading x with
  | .notANumber => "NaN"
  | .infinite negative => if negative then "-inf" else "inf"
  | .finite negative mantissa exponent =>
    let magnitude := if mantissa = 0 then "0" else (shortest mantissa exponent).text
    if negative then "-" ++ magnitude else magnitude

end Strata.Number
