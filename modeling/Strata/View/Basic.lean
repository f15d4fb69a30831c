/-
**Views.**

A view is a way of reading a map: the map itself, or what a derivation made of another view.  It is
a pile of layers, each put on by one derivation, and it knows nothing of the store.  The top layer
says what the view shows: which range of keys, how many versions of each, and how the bytes of its
values are to be read.

* `Schema` — what a map and all of its views share;
* `Layer`, `View` — one derivation, and the pile of them;
* `View.base`, `View.child` — the view of the map itself, and a view with one more layer;
* `View.parent?`, `View.priorities` — looking down the pile.
-/

import Strata.KeyRange
import Strata.Operator.Partial
import Strata.Operator.Registry
import Strata.Settings

set_option relaxedAutoImplicit false
set_option autoImplicit false

namespace Strata

/-- The derivation that made a view. -/
inductive Derivation where
  /-- The map itself. -/
  | base
  /-- Restriction to a range of keys. -/
  | restricted
  | sampled
  | filtered
  | transformed
  | aggregated
  /-- Restriction to a range that the view does not meet, and all that is derived from it. -/
  | empty
  deriving DecidableEq, Repr

/-- The name of a kind of view. -/
def Derivation.name : Derivation → String
  | base => "Base"
  | restricted => "Submap"
  | sampled => "Sampled"
  | filtered => "Filtered"
  | transformed => "Transformed"
  | aggregated => "Aggregated"
  | empty => "Empty"

/-- How the bytes of a view's values are read. -/
inductive ValueReading where
  /-- By a codec. -/
  | coded (codec : Codec)
  /-- As summaries of numbers. -/
  | summary
  deriving DecidableEq, Repr

/-- Reads the bytes of a value. -/
def ValueReading.decode : ValueReading → Bytes → Except MapError Value
  | coded codec, bytes => (codec.decode bytes).mapError .decode
  | summary, bytes => ((readSummary bytes).mapError MapError.ofOperatorError).map summaryValue

/-- What a map and its views share. -/
structure Schema where
  keyCodec : Codec
  valueCodec : Codec
  settings : Settings
  /-- The operators by which derivations are checked. -/
  registry : Registry

/-- The schema that settings describe. -/
def Schema.ofSettings (settings : Settings) (registry : Registry) : Except MapError Schema := do
  settings.validate
  let keyCodec ← (Codec.named settings.keyCodec).mapError fun e => .configuration e.message
  let valueCodec ← (Codec.named settings.valueCodec).mapError fun e => .configuration e.message
  return ⟨keyCodec, valueCodec, settings, registry⟩

/-- What one derivation made of the view below it. -/
structure Layer where
  kind : Derivation
  /-- The operator that the derivation put on, if it put one on. -/
  setting : Option Setting
  range : KeyRange
  mode : ScanMode
  valueType : ValueType
  format : ValueReading
  /-- The priority of the next operator. -/
  nextPriority : Nat
  deriving DecidableEq, Repr

/-- A pile of layers over a map. -/
structure View where
  schema : Schema
  top : Layer
  /-- The layers below the top one, the highest first. -/
  below : List Layer

namespace View

/-- The priority of the first operator over a map. -/
def firstPriority : Nat := 100

/-- The view of the map itself. -/
def base (schema : Schema) : View :=
  { schema := schema
    top :=
      { kind := .base
        setting := none
        range := KeyRange.full
        mode := .latest
        valueType := .typed
        format := .coded schema.valueCodec
        nextPriority := firstPriority }
    below := [] }

/-- The view with one more layer; over an empty view every layer is empty. -/
def child (v : View) (layer : Layer) : View :=
  { schema := v.schema
    top := { layer with kind := if v.top.kind = .empty then .empty else layer.kind }
    below := v.top :: v.below }

/-! ### Looking at a view -/

/-- All layers, the top one first. -/
def layers (v : View) : List Layer := v.top :: v.below

def kind (v : View) : Derivation := v.top.kind

/-- Nothing can be written through the view. -/
def isReadOnly (v : View) : Bool := v.kind != .base

/-- The view shows nothing, whatever the store holds. -/
def isEmptyView (v : View) : Bool := v.kind == .empty

/-- The view from which this one was derived. -/
def parent? (v : View) : Option View :=
  match v.below with
  | [] => none
  | layer :: below => some ⟨v.schema, layer, below⟩

/-- The priority of the top layer's operator. -/
def priority? (v : View) : Option Nat := v.top.setting.map (·.priority)

/-- The operators of all layers, the lowest first. -/
def settings (v : View) : List Setting := v.layers.reverse.filterMap (·.setting)

/-- The priorities of all operators, the lowest layer first. -/
def priorities (v : View) : List Nat := v.settings.map (·.priority)

@[simp] theorem layers_base (schema : Schema) : (base schema).layers = [(base schema).top] := rfl

@[simp] theorem schema_child (v : View) (layer : Layer) : (v.child layer).schema = v.schema := rfl

@[simp] theorem parent?_child (v : View) (layer : Layer) : (v.child layer).parent? = some v := rfl

@[simp] theorem parent?_base (schema : Schema) : (base schema).parent? = none := rfl

end View

end Strata
