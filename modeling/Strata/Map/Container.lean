/-
**Containers.**

A container is a map over a store: the store, the schema that says how keys and values are encoded,
and the slot for the one batch that may be open.  Several containers may share a store; each has a
slot of its own.

* `Opening`, `Opening.settings` — how a map is asked for;
* `Container.openMap` — opens a map, which sets how many versions the store keeps;
* `Container.base` — the view of the map itself, the only one to which can be written.
-/

import Strata.Store.Basic
import Strata.View.Basic

set_option relaxedAutoImplicit false
set_option autoImplicit false

namespace Strata

/-- One thing that is asked of a map before it is opened. -/
inductive Opening where
  | keyCodec (id : String)
  | valueCodec (id : String)
  | maxValuesPerKey (count : Nat)
  | singleValued
  | waitIncrement (milliseconds : Nat)
  deriving DecidableEq, Repr

namespace Opening

/-- Settings after one more thing is asked for. -/
def apply (s : Settings) : Opening → Settings
  | keyCodec id => { s with keyCodec := id }
  | valueCodec id => { s with valueCodec := id }
  | maxValuesPerKey count => { s with maxValuesPerKey := some count }
  | singleValued => { s with maxValuesPerKey := none }
  | waitIncrement milliseconds => { s with waitIncrement := milliseconds }

/-- The settings of what is asked for, one after the other. -/
def settings (asked : List Opening) : Settings := asked.foldl apply Settings.standard

end Opening

/-- A map over a store. -/
structure Container where
  store : Store
  schema : Schema
  /-- A batch is open. -/
  batchOpen : Bool

namespace Container

/-- Opens a map over a store.  If the settings are not valid nothing is done to the store. -/
def openMap (store : Store) (settings : Settings) (registry : Registry) :
    Except MapError Container :=
  (Schema.ofSettings settings registry).map fun schema =>
    { store := store.setRetention settings.retention
      schema := schema
      batchOpen := false }

/-- The view of the map itself. -/
def base (c : Container) : View := View.base c.schema

end Container

end Strata
