/-
**The text of a value.**

Values are shown bare: a text is its own text, bytes are hexadecimal digits, the items of an array
stand in brackets, the fields of an object in braces, sorted by name.
-/

import Strata.Number.Decimal
import Strata.Value.Basic

set_option relaxedAutoImplicit false
set_option autoImplicit false

namespace Strata

/-- The decimal digits of a 64-bit integer, with a sign if it is negative. -/
def Number.integerText (n : Int64) : String :=
  if n.toInt < 0 then "-" ++ Nat.repr n.toInt.natAbs else Nat.repr n.toInt.natAbs

namespace Value

/-- Fields in the order of their names. -/
def sortFields {α : Type} (fields : List (String × α)) : List (String × α) :=
  fields.mergeSort fun a b => decide (¬ b.1 < a.1)

mutual

/-- The text that shows a value. -/
def render : Value → String
  | null => "null"
  | bool b => if b then "true" else "false"
  | int n => Number.integerText n
  | float x => Number.text x
  | text s => s
  | bytes b => Bytes.hex b
  | array items => "[" ++ String.intercalate ", " (renderItems items) ++ "]"
  | object fields =>
    "\x7b" ++ String.intercalate ", "
      ((sortFields (renderFields fields)).map fun field => field.1 ++ "=" ++ field.2) ++ "\x7d"

/-- The texts of the items of an array. -/
def renderItems : List Value → List String
  | [] => []
  | item :: items => render item :: renderItems items

/-- The names of the fields of an object, each with the text of its value. -/
def renderFields : List (String × Value) → List (String × String)
  | [] => []
  | (name, v) :: fields => (name, render v) :: renderFields fields

end

end Value

end Strata
