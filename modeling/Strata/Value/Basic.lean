/-
**Values.**

A key or a value of a map is one of eight kinds of value.  No kind is ever equal to another: the
integer 1 is not the double 1.  Doubles compare as numbers, so no value that holds a NaN equals
itself, and the two zeros are equal.  The fields of an object form a finite map: their order is not
part of the value.

* `Value` — the type, and `Value.kindName`;
* `Value.equal` — equality, an instance of `BEq`;
* `Value.number?` and its neighbours — reading one kind out of a value;
* `setField` — adds a field to the fields of an object, replacing one of that name.
-/

import Strata.Bytes
import Strata.Number.Binary

set_option relaxedAutoImplicit false
set_option autoImplicit false

namespace Strata

/-- A dynamically typed key or value. -/
inductive Value where
  | null
  | bool (b : Bool)
  | int (n : Int64)
  | float (x : Float)
  | text (s : String)
  | bytes (b : Bytes)
  | array (items : List Value)
  | object (fields : List (String × Value))

namespace Value

instance : Inhabited Value := ⟨.null⟩

/-- The name of a value's kind. -/
def kindName : Value → String
  | null => "Null"
  | bool _ => "Bool"
  | int _ => "Int"
  | float _ => "Float"
  | text _ => "String"
  | bytes _ => "Bytes"
  | array _ => "Array"
  | object _ => "Object"

/-! ### Equality -/

mutual

/-- Equality of values: the same kind and the same content, doubles by numeric equality and
objects as finite maps. -/
def equal : Value → Value → Bool
  | null, null => true
  | bool a, bool b => a == b
  | int a, int b => a == b
  | float a, float b => a == b
  | text a, text b => a == b
  | bytes a, bytes b => a == b
  | array as, array bs => equalItems as bs
  | object as, object bs => as.length == bs.length && fieldsWithin as bs
  | _, _ => false

/-- Equality item by item. -/
def equalItems : List Value → List Value → Bool
  | [], [] => true
  | a :: as, b :: bs => equal a b && equalItems as bs
  | _, _ => false

/-- Every field of the first list has an equal field of its name in the second. -/
def fieldsWithin : List (String × Value) → List (String × Value) → Bool
  | [], _ => true
  | (name, a) :: as, bs =>
    (match bs.lookup name with
      | some b => equal a b
      | none => false) && fieldsWithin as bs

end

instance : BEq Value := ⟨equal⟩

/-! ### Reading one kind -/

/-- The value is `null`. -/
def isNull : Value → Bool
  | null => true
  | _ => false

/-- The value is an integer or a double. -/
def isNumber : Value → Bool
  | int _ | float _ => true
  | _ => false

def int? : Value → Option Int64
  | int n => some n
  | _ => none

def float? : Value → Option Float
  | float x => some x
  | _ => none

/-- The number that an integer or a double stands for, as a double. -/
def number? : Value → Option Float
  | int n => some (Number.ofInt64 n)
  | float x => some x
  | _ => none

def text? : Value → Option String
  | text s => some s
  | _ => none

def bytes? : Value → Option Bytes
  | bytes b => some b
  | _ => none

/-! ### Objects -/

/-- Adds a field, in the place of a field of that name if there is one. -/
def setField (name : String) (v : Value) : List (String × Value) → List (String × Value)
  | [] => [(name, v)]
  | field :: fields =>
    if field.1 = name then (name, v) :: fields else field :: setField name v fields

/-- The object with the fields given; of two fields of one name the later counts. -/
def ofFields (fields : List (String × Value)) : Value :=
  object (fields.foldl (fun known field => setField field.1 field.2 known) [])

end Value

end Strata
