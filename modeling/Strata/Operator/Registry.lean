/-
**Registries of operators.**

A registry knows operators by name: their descriptors, and how to build them from options.  The
client checks stacks of operators against the descriptors, and the store builds what it is asked to
run.

* `Registration`, `Registry` — operators, sorted by name and each name once;
* `Registry.register` — adds an operator, in place of one of its name;
* `Registry.descriptor`, `Registry.build` — looking up and building;
* `Registry.builtin` — the operators that are always known, over a digest for sampling and an order
  of the fields in keys.
-/

import Strata.Operator.Aggregate
import Strata.Operator.PatternFilter
import Strata.Operator.Sampling

set_option relaxedAutoImplicit false
set_option autoImplicit false

namespace Strata

/-- An operator and how it is built. -/
structure Registration where
  descriptor : Descriptor
  build : Options → Except OperatorError Operator

/-- The operators that are known. -/
structure Registry where
  registrations : List Registration

namespace Registry

/-- No operators. -/
def empty : Registry := ⟨[]⟩

/-- Puts an operator where its name belongs. -/
def insertSorted (new : Registration) : List Registration → List Registration
  | [] => [new]
  | r :: rest =>
    if r.descriptor.id = new.descriptor.id then new :: rest
    else if new.descriptor.id < r.descriptor.id then new :: r :: rest
    else r :: insertSorted new rest

/-- The registry with one more operator, or another one of its name. -/
def register (registry : Registry) (new : Registration) : Registry :=
  ⟨insertSorted new registry.registrations⟩

/-- The operator of a name. -/
def find? (registry : Registry) (id : String) : Option Registration :=
  registry.registrations.find? fun r => r.descriptor.id == id

def contains (registry : Registry) (id : String) : Bool := (registry.find? id).isSome

/-- The names of the operators, sorted. -/
def ids (registry : Registry) : List String :=
  registry.registrations.map fun r => r.descriptor.id

/-- The descriptor of an operator. -/
def descriptor (registry : Registry) (id : String) : Except OperatorError Descriptor :=
  match registry.find? id with
  | some r => .ok r.descriptor
  | none => .error (.unknownOperator id)

/-- Builds an operator from a setting. -/
def build (registry : Registry) (setting : Setting) : Except OperatorError Operator :=
  match registry.find? setting.id with
  | some r => r.build setting.options
  | none => .error (.unknownOperator setting.id)

/-- The types of values that a codec decodes. -/
def decodable : List ValueType := [.typed, .long]

/-- The operators that are always known. -/
def builtinRegistrations (digest : Bytes → Bytes) (order : FieldOrder) : List Registration :=
  [⟨⟨"sampling", .filter, [], none⟩, sampling digest⟩,
    ⟨⟨"regex_filter", .filter, decodable, none⟩, patternFilter⟩,
    ⟨⟨"key_to_key", .transform, [], some .typed⟩, keyCopy order⟩,
    ⟨⟨"row_stats", .rowTransform, decodable, some .summary⟩, rowSummary⟩,
    ⟨⟨"count", .aggregate, [], some .long⟩, countAll⟩,
    ⟨⟨"checksum", .aggregate, decodable, some .long⟩, checksumAll⟩,
    ⟨⟨"stats", .aggregate, decodable, some .summary⟩, summarizeAll⟩]

/-- The registry of the operators that are always known. -/
def builtin (digest : Bytes → Bytes) (order : FieldOrder := .asRead) : Registry :=
  (builtinRegistrations digest order).foldl register empty

end Registry

end Strata
