/-
**MessagePack documents.**

A document is written as one head byte that names its kind and often its size, then its content.
Writing takes the shortest head that fits; reading takes any head.  Reading stops at the end of the
document and leaves the bytes behind it.

* `Doc` — documents; whole numbers keep whether their head was signed;
* `Doc.write` — the shortest form;
* `Doc.read?` — the document at the front of a byte string, and the rest.
-/

import Strata.Bytes
import Strata.Number.Binary

set_option relaxedAutoImplicit false
set_option autoImplicit false

namespace Strata.MessagePack

/-- A MessagePack document.  Texts are kept as bytes, for nothing makes them valid UTF-8. -/
inductive Doc where
  | nil
  | bool (b : Bool)
  | unsigned (n : Nat)
  | signed (n : Int)
  | float (x : Float)
  | text (bytes : Bytes)
  | binary (bytes : Bytes)
  | array (items : List Doc)
  | map (entries : List (Doc × Doc))
  | extension (kind : UInt8) (bytes : Bytes)

instance : Inhabited Doc := ⟨.nil⟩

/-- A whole number, unsigned if it can be. -/
def Doc.ofInt (n : Int) : Doc := if 0 ≤ n then .unsigned n.toNat else .signed n

/-! ### Writing -/

/-- The head of a sized document: in the head byte itself below `short`, else in one, two or four
bytes behind the head `one`, `one + 1` or `one + 2`. -/
def sizedHead (size : Nat) (shortHead : UInt8) (shortLimit : Nat) (one : UInt8) : Bytes :=
  if size < shortLimit then [shortHead + UInt8.ofNat size]
  else if size < 2 ^ 8 then one :: Bytes.ofNat 1 size
  else if size < 2 ^ 16 then (one + 1) :: Bytes.ofNat 2 size
  else (one + 2) :: Bytes.ofNat 4 size

/-- The head of an array or a map: in the head byte itself below 16, else in two or four bytes
behind the head `two` or `two + 1`. -/
def containerHead (size : Nat) (shortHead two : UInt8) : Bytes :=
  if size < 16 then [shortHead + UInt8.ofNat size]
  else if size < 2 ^ 16 then two :: Bytes.ofNat 2 size
  else (two + 1) :: Bytes.ofNat 4 size

/-- A whole number in the shortest unsigned form. -/
def writeUnsigned (n : Nat) : Bytes :=
  if n < 2 ^ 7 then [UInt8.ofNat n]
  else if n < 2 ^ 8 then 0xcc :: Bytes.ofNat 1 n
  else if n < 2 ^ 16 then 0xcd :: Bytes.ofNat 2 n
  else if n < 2 ^ 32 then 0xce :: Bytes.ofNat 4 n
  else 0xcf :: Bytes.ofNat 8 n

/-- The two's complement of `n` in `width` bytes. -/
def twosComplement (width : Nat) (n : Int) : Bytes :=
  Bytes.ofNat width (n % (256 ^ width : Nat)).toNat

/-- A whole number in the shortest signed form. -/
def writeSigned (n : Int) : Bytes :=
  if -32 ≤ n ∧ n < 0 then twosComplement 1 n
  else if -2 ^ 7 ≤ n ∧ n < 2 ^ 7 then 0xd0 :: twosComplement 1 n
  else if -2 ^ 15 ≤ n ∧ n < 2 ^ 15 then 0xd1 :: twosComplement 2 n
  else if -2 ^ 31 ≤ n ∧ n < 2 ^ 31 then 0xd2 :: twosComplement 4 n
  else 0xd3 :: twosComplement 8 n

mutual

/-- The shortest form of a document. -/
def Doc.write : Doc → Bytes
  | .nil => [0xc0]
  | .bool b => [if b then 0xc3 else 0xc2]
  | .unsigned n => writeUnsigned n
  | .signed n => writeSigned n
  | .float x => 0xcb :: Bytes.ofWord x.toBits
  | .text bytes => sizedHead bytes.length 0xa0 32 0xd9 ++ bytes
  | .binary bytes => sizedHead bytes.length 0 0 0xc4 ++ bytes
  | .array items => containerHead items.length 0x90 0xdc ++ writeItems items
  | .map entries => containerHead entries.length 0x80 0xde ++ writeEntries entries
  | .extension kind bytes => sizedHead bytes.length 0 0 0xc7 ++ kind :: bytes

/-- The items of an array, one behind the other. -/
def writeItems : List Doc → Bytes
  | [] => []
  | item :: items => item.write ++ writeItems items

/-- The entries of a map, each as its key and its content. -/
def writeEntries : List (Doc × Doc) → Bytes
  | [] => []
  | (key, content) :: entries => key.write ++ content.write ++ writeEntries entries

end

/-! ### Reading -/

/-- What a head announces: a whole document, or content of a size. -/
inductive Head where
  | whole (doc : Doc)
  | text (size : Nat)
  | binary (size : Nat)
  | array (size : Nat)
  | map (size : Nat)
  | extension (size : Nat)

/-- Exactly `n` bytes from the front. -/
def takeBytes? (n : Nat) (input : Bytes) : Option (Bytes × Bytes) :=
  let front := input.take n
  if front.length = n then some (front, input.drop n) else none

/-- A big-endian number of `width` bytes from the front. -/
def takeNat? (width : Nat) (input : Bytes) : Option (Nat × Bytes) :=
  (takeBytes? width input).map fun (digits, rest) => (digits.toNat, rest)

/-- The integer whose two's complement in `width` bytes is `n`. -/
def ofTwosComplement (width n : Nat) : Int :=
  if n < 256 ^ width / 2 then n else (n : Int) - (256 ^ width : Nat)

/-- A head followed by a number in `width` bytes. -/
def numberHead (width : Nat) (head : Nat → Head) (input : Bytes) : Option (Head × Bytes) :=
  (takeNat? width input).map fun (n, rest) => (head n, rest)

/-- Reads the head of a document, with the numbers that belong to it. -/
def readHead : Bytes → Option (Head × Bytes)
  | [] => none
  | byte :: rest =>
    let b := byte.toNat
    if b < 0x80 then some (.whole (.unsigned b), rest)
    else if b < 0x90 then some (.map (b - 0x80), rest)
    else if b < 0xa0 then some (.array (b - 0x90), rest)
    else if b < 0xc0 then some (.text (b - 0xa0), rest)
    else if 0xe0 ≤ b then some (.whole (.signed ((b : Int) - 256)), rest)
    else
      match b with
      | 0xc0 => some (.whole .nil, rest)
      | 0xc2 => some (.whole (.bool false), rest)
      | 0xc3 => some (.whole (.bool true), rest)
      | 0xc4 => numberHead 1 .binary rest
      | 0xc5 => numberHead 2 .binary rest
      | 0xc6 => numberHead 4 .binary rest
      | 0xc7 => numberHead 1 .extension rest
      | 0xc8 => numberHead 2 .extension rest
      | 0xc9 => numberHead 4 .extension rest
      | 0xca => numberHead 4 (fun n => .whole (.float (Number.widen (UInt32.ofNat n)))) rest
      | 0xcb => numberHead 8 (fun n => .whole (.float (Float.ofBits (UInt64.ofNat n)))) rest
      | 0xcc => numberHead 1 (fun n => .whole (.unsigned n)) rest
      | 0xcd => numberHead 2 (fun n => .whole (.unsigned n)) rest
      | 0xce => numberHead 4 (fun n => .whole (.unsigned n)) rest
      | 0xcf => numberHead 8 (fun n => .whole (.unsigned n)) rest
      | 0xd0 => numberHead 1 (fun n => .whole (.signed (ofTwosComplement 1 n))) rest
      | 0xd1 => numberHead 2 (fun n => .whole (.signed (ofTwosComplement 2 n))) rest
      | 0xd2 => numberHead 4 (fun n => .whole (.signed (ofTwosComplement 4 n))) rest
      | 0xd3 => numberHead 8 (fun n => .whole (.signed (ofTwosComplement 8 n))) rest
      | 0xd4 => some (.extension 1, rest)
      | 0xd5 => some (.extension 2, rest)
      | 0xd6 => some (.extension 4, rest)
      | 0xd7 => some (.extension 8, rest)
      | 0xd8 => some (.extension 16, rest)
      | 0xd9 => numberHead 1 .text rest
      | 0xda => numberHead 2 .text rest
      | 0xdb => numberHead 4 .text rest
      | 0xdc => numberHead 2 .array rest
      | 0xdd => numberHead 4 .array rest
      | 0xde => numberHead 2 .map rest
      | 0xdf => numberHead 4 .map rest
      | _ => none

mutual

/-- Reads a document in at most `fuel` nested steps. -/
def readWith : Nat → Bytes → Option (Doc × Bytes)
  | 0, _ => none
  | fuel + 1, input =>
    match readHead input with
    | none => none
    | some (.whole doc, rest) => some (doc, rest)
    | some (.text size, rest) =>
      (takeBytes? size rest).map fun (bytes, rest) => (.text bytes, rest)
    | some (.binary size, rest) =>
      (takeBytes? size rest).map fun (bytes, rest) => (.binary bytes, rest)
    | some (.extension size, rest) =>
      (takeBytes? (size + 1) rest).map fun (bytes, rest) =>
        (.extension (bytes.headD 0) bytes.tail, rest)
    | some (.array size, rest) => readItems fuel size [] rest
    | some (.map size, rest) => readEntries fuel size [] rest

/-- Reads `size` further items of an array; `items` holds those before them, the last first. -/
def readItems : Nat → Nat → List Doc → Bytes → Option (Doc × Bytes)
  | _, 0, items, input => some (.array items.reverse, input)
  | 0, _ + 1, _, _ => none
  | fuel + 1, size + 1, items, input =>
    match readWith fuel input with
    | none => none
    | some (item, rest) => readItems fuel size (item :: items) rest

/-- Reads `size` further entries of a map; `entries` holds those before them, the last first. -/
def readEntries : Nat → Nat → List (Doc × Doc) → Bytes → Option (Doc × Bytes)
  | _, 0, entries, input => some (.map entries.reverse, input)
  | 0, _ + 1, _, _ => none
  | fuel + 1, size + 1, entries, input =>
    match readWith fuel input with
    | none => none
    | some (key, rest) =>
      match readWith fuel rest with
      | none => none
      | some (content, rest) => readEntries fuel size ((key, content) :: entries) rest

end

/-- Reads the document at the front of a byte string.  Every step that nests takes at least one
byte before it nests again or goes on to the next item, so twice the length is fuel enough. -/
def Doc.read? (input : Bytes) : Option (Doc × Bytes) := readWith (2 * input.length + 2) input

end Strata.MessagePack
