/-
**A partitioned store of versioned keys.**

A store keeps the partitions, the number of versions that it retains of each key, and a clock that
counts the versions written.  A batch is checked against the limits first and then applied mutation
by mutation, so it is applied as a whole or not at all.

* `StoreLayout`, `Store.ofLayout` — how a store is cut and limited, and the empty store of that;
* `Store.writeBatch`, `Store.setRetention` — changing what is stored;
* `Store.bounds`, `Store.partitionSize` — looking at the partitions.
-/

import Strata.Operator.Registry
import Strata.Store.Partition
import Strata.Store.Scanner

set_option relaxedAutoImplicit false
set_option autoImplicit false

namespace Strata

/-- How a store is cut and limited. -/
structure StoreLayout where
  splits : List Bytes
  limits : Limits
  /-- How many versions of a key are kept; `none` keeps all. -/
  retention : Option Nat
  deriving Repr

/-- One partition, the standard limits and one version of each key. -/
def StoreLayout.standard : StoreLayout := ⟨[], Limits.standard, some 1⟩

/-- A store of versioned keys. -/
structure Store where
  partitions : List Partition
  registry : Registry
  limits : Limits
  retention : Option Nat
  /-- The timestamp of the last version written. -/
  clock : Nat

namespace Store

/-- An empty store, whose partitions can run all operators of its registry. -/
def ofLayout (layout : StoreLayout) (registry : Registry) : Store :=
  { partitions := (spans none (sortKeys layout.splits)).map fun span =>
      ⟨span.1, span.2, [], registry.ids⟩
    registry := registry
    limits := layout.limits
    retention := layout.retention
    clock := 0 }

/-! ### Writing -/

/-- Changes the partition to which a key belongs: the first that ends after it, or the last. -/
def modifyFor (key : Bytes) (change : Partition → Partition) : List Partition → List Partition
  | [] => []
  | [p] => [change p]
  | p :: rest => if p.endsAfter key then change p :: rest else p :: modifyFor key change rest

/-- Changes the rows of the partition to which a key belongs. -/
def modifyRows (store : Store) (key : Bytes) (change : Rows → Rows) : Store :=
  { store with
    partitions := modifyFor key (fun p => { p with rows := change p.rows }) store.partitions }

/-- Applies one mutation.  Only a version that is written takes a timestamp. -/
def apply (store : Store) : Mutation → Store
  | .put key value =>
    let version : Version := ⟨value, store.clock + 1⟩
    let written (chain : Option VersionChain) : VersionChain :=
      match chain with
      | some chain => chain.push version store.retention
      | none => .single version
    { store.modifyRows key (Rows.update key written) with clock := store.clock + 1 }
  | .delete key => store.modifyRows key (Rows.erase key)

/-- Applies a batch of mutations, unless it breaks a limit. -/
def writeBatch (store : Store) (batch : List Mutation) : Except StoreError Store :=
  match store.limits.checkBatch batch with
  | .error violation => .error (StoreError.ofViolation violation)
  | .ok () => .ok (batch.foldl apply store)

/-- Sets how many versions of a key are kept, and cuts what is stored to it. -/
def setRetention (store : Store) (retention : Option Nat) : Store :=
  { store with
    partitions := store.partitions.map fun p => { p with rows := p.rows.retain retention }
    retention := retention }

/-! ### Partitions -/

/-- The spans of the partitions. -/
def bounds (store : Store) : List (Option Bytes × Option Bytes) :=
  store.partitions.map fun p => (p.low, p.high)

/-- How many keys a partition holds; a partition that does not exist holds none. -/
def partitionSize (store : Store) (index : Nat) : Nat :=
  match store.partitions[index]? with
  | some p => p.rows.length
  | none => 0

/-- The store with a partition that cannot run an operator any more. -/
def uninstall (store : Store) (index : Nat) (id : String) : Store :=
  { store with partitions := store.partitions.modify index fun p => p.withoutOperator id }

/-- The store with a partition that can run an operator. -/
def reinstall (store : Store) (index : Nat) (id : String) : Store :=
  { store with partitions := store.partitions.modify index fun p => p.withOperator id }

end Store

end Strata
