/-
**Values as MessagePack documents.**

A value is packed as a map of one entry, from the name of its kind to its content; `null` has no
content and is packed as its name alone.  Bytes are packed as an array of numbers.

Unpacking is more lenient.  The kind may be given by its name as text or as bytes, or by its place
in the list of kinds; `null` may be the entry of a map whose content is nil; a double may be
packed as any number and bytes as bytes.  Arrays and maps may nest to a fixed depth only.  The
fields of an object are listed as they are first read, but what is read is a finite map: whoever
writes it again writes its fields in an order of its own.

* `toDoc`, `ofDoc?` — values to documents and back;
* `pack`, `unpack?` — values to bytes and back; bytes behind the document are left alone.
-/

import Strata.MessagePack
import Strata.Value.Basic

set_option relaxedAutoImplicit false
set_option autoImplicit false

namespace Strata.Codec

open MessagePack

/-! ### Packing -/

/-- The map of one entry from the name of a kind to its content. -/
def entry (kind : String) (content : Doc) : Doc := .map [(.text (Bytes.ofText kind), content)]

mutual

/-- The document of a value. -/
def toDoc : Value → Doc
  | .null => .text (Bytes.ofText "Null")
  | .bool b => entry "Bool" (.bool b)
  | .int n => entry "Int" (Doc.ofInt n.toInt)
  | .float x => entry "Float" (.float x)
  | .text s => entry "String" (.text (Bytes.ofText s))
  | .bytes b => entry "Bytes" (.array (b.map fun byte => .unsigned byte.toNat))
  | .array items => entry "Array" (.array (toDocs items))
  | .object fields => entry "Object" (.map (toEntries fields))

/-- The documents of the items of an array. -/
def toDocs : List Value → List Doc
  | [] => []
  | item :: items => toDoc item :: toDocs items

/-- The entries for the fields of an object. -/
def toEntries : List (String × Value) → List (Doc × Doc)
  | [] => []
  | (name, v) :: fields => (.text (Bytes.ofText name), toDoc v) :: toEntries fields

end

/-! ### Unpacking -/

/-- The kinds of value, in the order of their numbers. -/
inductive Kind where
  | null
  | bool
  | int
  | float
  | text
  | bytes
  | array
  | object
  deriving DecidableEq, Repr

/-- The kinds with their names, in the order of their numbers. -/
def kinds : List (String × Kind) :=
  [("Null", .null), ("Bool", .bool), ("Int", .int), ("Float", .float), ("String", .text),
    ("Bytes", .bytes), ("Array", .array), ("Object", .object)]

/-- The kind that a document names, as a text, as bytes or by its number. -/
def kind? : Doc → Option Kind
  | .text name | .binary name =>
    (kinds.find? fun known => Bytes.ofText known.1 == name).map Prod.snd
  | .unsigned n => (kinds[n]?).map Prod.snd
  | _ => none

/-- A whole number of either sign. -/
def integer? : Doc → Option Int
  | .unsigned n => some n
  | .signed n => some n
  | _ => none

/-- Any number, as a double. -/
def number? : Doc → Option Float
  | .float x => some x
  | .unsigned n => some (Float.ofNat n)
  | .signed n => some (Float.ofInt n)
  | _ => none

/-- A text, or bytes that are UTF-8. -/
def textOf? : Doc → Option String
  | .text bytes | .binary bytes => Bytes.text? bytes
  | _ => none

/-- A byte given as a number. -/
def byte? (doc : Doc) : Option UInt8 :=
  match integer? doc with
  | some n => if 0 ≤ n ∧ n < 256 then some (UInt8.ofNat n.toNat) else none
  | none => none

/-- How deep arrays and maps may nest in the content of values. -/
def depthLimit : Nat := 1023

mutual

/-- The value that a document packs, with arrays and maps nested at most `depth` deep. -/
def ofDoc? : Nat → Doc → Option Value
  | depth, .map [(name, content)] =>
    match kind? name with
    | some kind => ofContent? depth kind content
    | none => none
  | _, .map _ => none
  | _, doc => if kind? doc = some .null then some .null else none

/-- The value of a kind with a given content. -/
def ofContent? : Nat → Kind → Doc → Option Value
  | _, .null, .nil => some .null
  | _, .bool, .bool b => some (.bool b)
  | _, .int, doc =>
    match integer? doc with
    | some n =>
      if Number.leastInt64 ≤ n ∧ n ≤ Number.greatestInt64 then some (.int (Int64.ofInt n))
      else none
    | none => none
  | _, .float, doc => (number? doc).map .float
  | _, .text, doc => (textOf? doc).map .text
  | _, .bytes, .binary bytes => some (.bytes bytes)
  | _ + 1, .bytes, .array items => (items.mapM byte?).map .bytes
  | _, .array, .binary [] => some (.array [])
  | depth + 1, .array, .array items => (ofDocs? depth items).map .array
  | depth + 1, .object, .map entries => (ofEntries? depth entries).map Value.ofFields
  | _, _, _ => none

/-- The values that the items of an array pack. -/
def ofDocs? : Nat → List Doc → Option (List Value)
  | _, [] => some []
  | depth, item :: items =>
    match ofDoc? depth item with
    | none => none
    | some v => (ofDocs? depth items).map (v :: ·)

/-- The fields that the entries of a map pack. -/
def ofEntries? : Nat → List (Doc × Doc) → Option (List (String × Value))
  | _, [] => some []
  | depth, (name, content) :: entries =>
    match textOf? name with
    | none => none
    | some name =>
      match ofDoc? depth content with
      | none => none
      | some v => (ofEntries? depth entries).map ((name, v) :: ·)

end

/-- A value as bytes. -/
def pack (v : Value) : Bytes := (toDoc v).write

/-- The value packed at the front of a byte string. -/
def unpack? (input : Bytes) : Option Value :=
  match Doc.read? input with
  | none => none
  | some (doc, _) => ofDoc? depthLimit doc

end Strata.Codec
