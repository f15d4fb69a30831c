/-
**Powers, and hexadecimal digits.**

* `wholePower` — the powers of whole numbers;
* `hexDigit`, `upperHexDigit` — the digit of a number below 16;
* `hexValue?`, `readHex?` — the number of a digit of either case, and of a row of digits.
-/

set_option relaxedAutoImplicit false
set_option autoImplicit false

namespace Strata.Number

/-- Powers of whole numbers are the ones that evaluate, whatever algebra stands beside them. -/
@[default_instance 20000]
instance (priority := 2000) wholePower {α : Type _} [NatPow α] : Pow α Nat := instPowNat

/-- A hexadecimal digit, lower case. -/
def hexDigit (n : Nat) : Char := Char.ofNat (if n < 10 then 48 + n else 87 + n)

/-- A hexadecimal digit, upper case. -/
def upperHexDigit (n : Nat) : Char := Char.ofNat (if n < 10 then 48 + n else 55 + n)

/-- The number of a hexadecimal digit of either case. -/
def hexValue? (c : Char) : Option Nat :=
  if '0' ≤ c ∧ c ≤ '9' then some (c.toNat - 48)
  else if 'a' ≤ c ∧ c ≤ 'f' then some (c.toNat - 87)
  else if 'A' ≤ c ∧ c ≤ 'F' then some (c.toNat - 55)
  else none

/-- The number that hexadecimal digits spell. -/
def readHex? (digits : List Char) : Option Nat :=
  digits.foldlM (fun n c => (hexValue? c).map (n * 16 + ·)) 0

end Strata.Number
