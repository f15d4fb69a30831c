/-
**Doubles read as integers times powers of two.**

Whatever has to be exact about a double — its integer part, its truncation, its nearest integer,
its decimal digits — is computed here on the integer `mantissa` and the power of two that the bits
of the double spell, in unbounded integer arithmetic.  Conversions to a fixed width saturate: a
number outside the width becomes the nearest end, and a value that is no number becomes zero.

* `Reading`, `reading` — the value of a double as `±mantissa · 2 ^ exponent`;
* `floorOf`, `truncateOf`, `roundOf` — the integer parts;
* `saturate`, `floorInt64`, … — saturating conversions;
* `floor`, `least`, `greatest` — the integer part as a double, and the extremes of two doubles;
* `widen` — the double equal to a number of 32-bit precision.
-/

import Strata.Number.Hex

set_option relaxedAutoImplicit false
set_option autoImplicit false

namespace Strata.Number

/-- What the bits of a double say: a signed integer times a power of two, or no finite number. -/
inductive Reading where
  /-- The number `mantissa · 2 ^ exponent`, negated if `negative`. -/
  | finite (negative : Bool) (mantissa : Nat) (exponent : Int)
  | infinite (negative : Bool)
  | notANumber
  deriving DecidableEq, Repr

/-- Reads the three fields of a 64-bit binary floating-point word. -/
def reading (x : Float) : Reading :=
  let bits : Nat := x.toBits.toNat
  let negative := bits / 2 ^ 63 == 1
  let biased : Nat := bits / 2 ^ 52 % 2 ^ 11
  let fraction : Nat := bits % 2 ^ 52
  if biased = 2047 then
    if fraction = 0 then .infinite negative else .notANumber
  else if biased = 0 then .finite negative fraction (-1074)
  else .finite negative (2 ^ 52 + fraction) (biased - 1075)

/-- An integer with the sign given. -/
def signed (negative : Bool) (n : Nat) : Int := if negative then -n else n

/-- The greatest integer at most `±mantissa · 2 ^ exponent`. -/
def floorOf (negative : Bool) (mantissa : Nat) (exponent : Int) : Int :=
  if 0 ≤ exponent then signed negative (mantissa * 2 ^ exponent.toNat)
  else Int.fdiv (signed negative mantissa) (2 ^ (-exponent).toNat)

/-- The integer next to `±mantissa · 2 ^ exponent` in the direction of zero. -/
def truncateOf (negative : Bool) (mantissa : Nat) (exponent : Int) : Int :=
  if 0 ≤ exponent then signed negative (mantissa * 2 ^ exponent.toNat)
  else signed negative (mantissa / 2 ^ (-exponent).toNat)

/-- The integer nearest to `±mantissa · 2 ^ exponent`, a half going away from zero. -/
def roundOf (negative : Bool) (mantissa : Nat) (exponent : Int) : Int :=
  if 0 ≤ exponent then signed negative (mantissa * 2 ^ exponent.toNat)
  else
    let unit := 2 ^ (-exponent).toNat
    signed negative ((2 * mantissa + unit) / (2 * unit))

/-- The integer of `[low, high]` nearest to `n`. -/
def clamp (low high n : Int) : Int := max low (min n high)

/-- Converts a double to an integer of `[low, high]` by the rule `part`.  What lies outside becomes
the nearer end, and what is no number becomes zero. -/
def saturate (low high : Int) (part : Bool → Nat → Int → Int) : Reading → Int
  | .finite negative mantissa exponent => clamp low high (part negative mantissa exponent)
  | .infinite negative => if negative then low else high
  | .notANumber => 0

/-- The least integer of 64 signed bits. -/
def leastInt64 : Int := -2 ^ 63

/-- The greatest integer of 64 signed bits. -/
def greatestInt64 : Int := 2 ^ 63 - 1

/-- The greatest integer at most `x`, as a 64-bit integer. -/
def floorInt64 (x : Float) : Int64 :=
  Int64.ofInt (saturate leastInt64 greatestInt64 floorOf (reading x))

/-- The integer part of `x` toward zero, as a 64-bit integer. -/
def truncateInt64 (x : Float) : Int64 :=
  Int64.ofInt (saturate leastInt64 greatestInt64 truncateOf (reading x))

/-- The integer nearest to `x`, halves away from zero, as a 64-bit integer. -/
def roundInt64 (x : Float) : Int64 :=
  Int64.ofInt (saturate leastInt64 greatestInt64 roundOf (reading x))

/-- The integer part of a double, as a double. -/
def floor (x : Float) : Float :=
  match reading x with
  | .finite negative mantissa exponent =>
    if mantissa = 0 ∨ 0 ≤ exponent then x else Float.ofInt (floorOf negative mantissa exponent)
  | _ => x

/-- The integer part of a double in 32 bits without a sign. -/
def floorWord32 (x : Float) : Nat :=
  (saturate 0 (2 ^ 32 - 1) floorOf (reading x)).toNat

/-- The double nearest to a 64-bit integer. -/
def ofInt64 (n : Int64) : Float := Float.ofInt n.toInt

/-- The lesser of two doubles; a NaN is passed over, and of two equal ones the first is taken. -/
def least (a b : Float) : Float := if a.isNaN then b else if b < a then b else a

/-- The greater of two doubles; a NaN is passed over, and of two equal ones the first is taken. -/
def greatest (a b : Float) : Float := if a.isNaN then b else if a < b then b else a

/-- The value that is no number. -/
def notANumber : Float := Float.ofBits 0x7ff8000000000000

/-- The double that equals a 32-bit floating-point word. -/
def widen (word : UInt32) : Float :=
  let bits : Nat := word.toNat
  let negative := bits / 2 ^ 31 == 1
  let biased : Nat := bits / 2 ^ 23 % 2 ^ 8
  let fraction : Nat := bits % 2 ^ 23
  let magnitude : Float :=
    if biased = 255 then
      if fraction = 0 then Float.ofBits 0x7ff0000000000000 else notANumber
    else if biased = 0 then Float.ofNat fraction * Float.ofBits 0x36a0000000000000
    else
      Float.ofNat (2 ^ 23 + fraction) * Float.ofBits (UInt64.ofNat ((biased + 873) * 2 ^ 52))
  if negative then -magnitude else magnitude

end Strata.Number
