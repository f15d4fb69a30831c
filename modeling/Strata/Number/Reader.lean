/-
**Reading numbers from text.**

A whole number is decimal digits with an optional plus sign, and is refused at the first character
that is no digit or that makes it exceed its limit, whichever comes first.  A double is digits with
an optional sign, point and exponent, at least one digit standing before the exponent; or it is
the word for infinity or for no number, in any case.

* `readNatural` — whole numbers up to a limit, with `IntegerFault`;
* `readInt64` — signed 64-bit integers;
* `readFloat` — doubles, with `FloatFault`.
-/

import Strata.Number.Decimal

set_option relaxedAutoImplicit false
set_option autoImplicit false

namespace Strata.Number

/-! ### Integers -/

/-- Why a text is no whole number. -/
inductive IntegerFault where
  | empty
  | invalidDigit
  | tooLarge
  deriving DecidableEq, Repr

def IntegerFault.message : IntegerFault → String
  | .empty => "cannot parse integer from empty string"
  | .invalidDigit => "invalid digit found in string"
  | .tooLarge => "number too large to fit in target type"

/-- The value of a decimal digit. -/
def digit? (c : Char) : Option Nat :=
  if '0' ≤ c ∧ c ≤ '9' then some (c.toNat - 48) else none

/-- Appends one digit to a number that must stay within the limit. -/
def appendDigit (limit n : Nat) (c : Char) : Except IntegerFault Nat :=
  match digit? c with
  | none => .error .invalidDigit
  | some d => if limit < n * 10 + d then .error .tooLarge else .ok (n * 10 + d)

/-- Reads a whole number of at most `limit`. -/
def readNatural (limit : Nat) : List Char → Except IntegerFault Nat
  | [] => .error .empty
  | ['+'] => .error .invalidDigit
  | '+' :: digits => digits.foldlM (appendDigit limit) 0
  | digits => digits.foldlM (appendDigit limit) 0

/-- The greatest integer of 64 unsigned bits. -/
def greatestWord : Nat := 2 ^ 64 - 1

/-- The number that a nonempty run of digits spells. -/
def readDigits? : List Char → Option Nat
  | [] => none
  | digits => digits.foldlM (fun n c => (digit? c).map (n * 10 + ·)) 0

/-- Reads a signed decimal integer of 64 bits. -/
def readInt64? (text : List Char) : Option Int64 :=
  let n? : Option Int :=
    match text with
    | '+' :: digits => (readDigits? digits).map fun n => (n : Int)
    | '-' :: digits => (readDigits? digits).map fun n => -(n : Int)
    | digits => (readDigits? digits).map fun n => (n : Int)
  match n? with
  | none => none
  | some n => if leastInt64 ≤ n ∧ n ≤ greatestInt64 then some (Int64.ofInt n) else none

/-! ### Doubles -/

/-- Why a text is no double. -/
inductive FloatFault where
  | empty
  | invalid
  deriving DecidableEq, Repr

def FloatFault.message : FloatFault → String
  | .empty => "cannot parse float from empty string"
  | .invalid => "invalid float literal"

/-- The digits at the front of a text, and what follows them. -/
def spanDigits (text : List Char) : List Char × List Char :=
  (text.takeWhile fun c => (digit? c).isSome, text.dropWhile fun c => (digit? c).isSome)

/-- Reads the exponent of a decimal: nothing, or the letter `e` and a signed whole number. -/
def readExponent? : List Char → Option Int
  | [] => some 0
  | letter :: rest =>
    if letter = 'e' ∨ letter = 'E' then
      match rest with
      | '+' :: digits => (readDigits? digits).map fun n => (n : Int)
      | '-' :: digits => (readDigits? digits).map fun n => -(n : Int)
      | digits => (readDigits? digits).map fun n => (n : Int)
    else none

/-- Reads an unsigned decimal: digits around an optional point, at least one of them, and an
optional exponent. -/
def readDecimal? (text : List Char) : Option Decimal := do
  let (whole, rest) := spanDigits text
  let (fraction, rest) :=
    match rest with
    | '.' :: rest => spanDigits rest
    | _ => ([], rest)
  let digits ← readDigits? (whole ++ fraction)
  let exponent ← readExponent? rest
  return ⟨digits, exponent - fraction.length⟩

/-- The names of the values that have no digits, in any case. -/
def readNamed? (text : List Char) : Option Float :=
  let name := String.ofList (text.map Char.toLower)
  if name = "inf" ∨ name = "infinity" then some (Float.ofBits 0x7ff0000000000000)
  else if name = "nan" then some notANumber
  else none

/-- Reads the magnitude of a double. -/
def readMagnitude? (text : List Char) : Option Float :=
  match readDecimal? text with
  | some d => some d.toFloat
  | none => readNamed? text

/-- Reads a double. -/
def readFloat (text : List Char) : Except FloatFault Float :=
  let magnitude? :=
    match text with
    | '+' :: rest => readMagnitude? rest
    | '-' :: rest => (readMagnitude? rest).map fun x => -x
    | rest => readMagnitude? rest
  match text, magnitude? with
  | [], _ => .error .empty
  | _, none => .error .invalid
  | _, some x => .ok x

end Strata.Number
