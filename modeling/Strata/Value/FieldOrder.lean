/-
**Fields in an order.**

The fields of an object are a finite map: where they are written one after the other, they stand in
an order that is no part of the value.  An object that was read from bytes is written again in an
order of its own, another one each time it is read.  That order is a parameter here.  It says of
every entry whose key is read how the fields in that key come to stand, and what is known of it is
only that they are the fields that were read.

* `Value.Rearranges`, `Value.Rearranged` — the same fields in another order, at any depth;
* `FieldOrder` — the orders in which the fields of keys come, with `FieldOrder.asRead` and
  `FieldOrder.reversed`.
-/

import Strata.Entry
import Strata.Value.Basic

set_option relaxedAutoImplicit false
set_option autoImplicit false

namespace Strata

namespace Value

/-- The fields of one object, somewhere in a value, are put in another order. -/
inductive Rearranges : Value → Value → Prop where
  | fields {as bs : List (String × Value)} (h : as.Perm bs) : Rearranges (.object as) (.object bs)
  | item {v w : Value} (before after : List Value) (h : Rearranges v w) :
      Rearranges (.array (before ++ v :: after)) (.array (before ++ w :: after))
  | field {v w : Value} (name : String) (before after : List (String × Value))
      (h : Rearranges v w) :
      Rearranges (.object (before ++ (name, v) :: after)) (.object (before ++ (name, w) :: after))

/-- The fields of any objects in a value are put in other orders. -/
inductive Rearranged (v : Value) : Value → Prop where
  | refl : Rearranged v v
  | tail {u w : Value} (h : Rearranged v u) (hstep : Rearranges u w) : Rearranged v w

end Value

/-- The order in which the fields of the objects in a key come, for every entry whose key is read
and written again.  One order for an entry is enough: where its key is copied twice, the second copy
takes the place of the first. -/
structure FieldOrder where
  arrange : Entry → Value → Value
  rearranged : ∀ (e : Entry) (v : Value), v.Rearranged (arrange e v)

/-- All fields come in the order in which they were read. -/
def FieldOrder.asRead : FieldOrder := ⟨fun _ v => v, fun _ _ => .refl⟩

/-- The fields of a key that is an object come the other way round. -/
def FieldOrder.reversed : FieldOrder where
  arrange
    | _, .object fields => .object fields.reverse
    | _, v => v
  rearranged e v := by
    cases v with
    | object fields => exact .tail .refl (.fields fields.reverse_perm.symm)
    | _ => exact .refl

end Strata
