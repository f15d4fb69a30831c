/-
**Byte strings.**

Keys and values are stored as byte strings and compared byte by byte from the left, a proper
initial part coming before what it starts.  That order is the order of lists of bytes, so a byte
string is a list of bytes and inherits it.

* `Bytes` — the type, with the lexicographic order of `List`;
* `Bytes.ofNat`, `Bytes.toNat` — big-endian words of a fixed width, and reading one back;
* `Bytes.ofText`, `Bytes.text?` — UTF-8;
* `Bytes.hex`, `Bytes.ofHex?` — two lower-case digits a byte.
-/

import Strata.Number.Hex

set_option relaxedAutoImplicit false
set_option autoImplicit false

namespace Strata

/-- A byte string. -/
abbrev Bytes := List UInt8

namespace Bytes

/-! ### Big-endian words -/

/-- The `width` lowest base-256 digits of `n`, most significant first. -/
def ofNat : Nat → Nat → Bytes
  | 0, _ => []
  | width + 1, n => UInt8.ofNat (n / 256 ^ width) :: ofNat width n

@[simp] theorem ofNat_zero (n : Nat) : ofNat 0 n = [] := rfl

theorem ofNat_succ (width n : Nat) :
    ofNat (width + 1) n = UInt8.ofNat (n / 256 ^ width) :: ofNat width n := rfl

@[simp] theorem length_ofNat (width n : Nat) : (ofNat width n).length = width := by
  induction width with
  | zero => rfl
  | succ width ih => simp [ofNat_succ, ih]

/-- The number that a byte string spells in base 256, most significant byte first. -/
def toNat (bytes : Bytes) : Nat :=
  bytes.foldl (fun n byte => n * 256 + byte.toNat) 0

@[simp] theorem toNat_nil : toNat [] = 0 := rfl

/-- A 64-bit word as its eight bytes. -/
def ofWord (word : UInt64) : Bytes := ofNat 8 word.toNat

@[simp] theorem length_ofWord (word : UInt64) : (ofWord word).length = 8 := length_ofNat 8 _

/-- The 64-bit word that eight bytes spell. -/
def toWord (bytes : Bytes) : UInt64 := UInt64.ofNat bytes.toNat

/-! ### Text -/

/-- The UTF-8 form of a text. -/
def ofText (text : String) : Bytes := text.toUTF8.data.toList

/-- The text that a byte string spells in UTF-8, if it does. -/
def text? (bytes : Bytes) : Option String := String.fromUTF8? ⟨bytes.toArray⟩

/-- Two lower-case hexadecimal digits for every byte. -/
def hex (bytes : Bytes) : String :=
  bytes.foldl
    (fun text byte =>
      (text.push (Number.hexDigit (byte.toNat / 16))).push (Number.hexDigit (byte.toNat % 16)))
    ""

/-- Reads two digits for every byte, behind bytes read before, the last of them first. -/
def ofHexDigits? (known : Bytes) : List Char → Option Bytes
  | [] => some known.reverse
  | [_] => none
  | high :: low :: rest =>
    match Number.hexValue? high, Number.hexValue? low with
    | some high, some low => ofHexDigits? (UInt8.ofNat (high * 16 + low) :: known) rest
    | _, _ => none

/-- The byte string that a text spells in hexadecimal digits. -/
def ofHex? (text : String) : Option Bytes := ofHexDigits? [] text.toList

end Bytes

end Strata
