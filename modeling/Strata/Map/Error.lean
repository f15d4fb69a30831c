/-
**What a map answers when it cannot do what is asked.**

Faults of the layers below are sorted by what they mean to the caller: bytes that do not decode, a
write that was refused, an operator that a partition lacks, or a stack of operators that makes no
sense.

* `MapOperation` — what only the map itself may be asked to do;
* `MapError`, `MapError.message` — the faults and their texts;
* `MapError.ofOperatorError`, `MapError.ofStoreError` — the faults of the layers below.
-/

import Strata.Store.Error

set_option relaxedAutoImplicit false
set_option autoImplicit false

namespace Strata

/-- What changes a map. -/
inductive MapOperation where
  | put
  | remove
  | importAll
  | clear
  | openBatch
  deriving DecidableEq, Repr

/-- The words for an operation. -/
def MapOperation.words : MapOperation → String
  | put => "put"
  | remove => "remove"
  | importAll => "import"
  | clear => "clear"
  | openBatch => "open a write batch"

/-- Why a map or a view cannot do what is asked. -/
inductive MapError where
  /-- Bytes cannot be decoded, or a value cannot be encoded. -/
  | decode (error : CodecError)
  /-- The store refused a batch. -/
  | writeRejected (reason : String)
  /-- A view is no map and cannot be written to. -/
  | readOnly (operation : MapOperation)
  /-- A partition cannot run an operator. -/
  | missingCapability (operator : String) (partition : Nat)
  /-- Settings or operators make no sense. -/
  | configuration (reason : String)
  /-- Another batch of the map is open. -/
  | batchInProgress
  /-- Writing outside the store failed. -/
  | io (reason : String)
  /-- Any other fault of the store. -/
  | store (error : StoreError)
  deriving DecidableEq, Repr

namespace MapError

def message : MapError → String
  | decode error => s!"Decode error: {error.message}"
  | writeRejected reason => s!"Write rejected: {reason}"
  | readOnly operation => s!"View is read-only: cannot {operation.words}"
  | missingCapability id partition => s!"Operator {id} is not available on partition {partition}"
  | configuration reason => s!"Configuration error: {reason}"
  | batchInProgress => "A write batch is already open on this container"
  | io reason => s!"I/O error: {reason}"
  | store error => s!"Store error: {error.message}"

/-- A fault of an operator: what does not decode, or else a stack that makes no sense. -/
def ofOperatorError : OperatorError → MapError
  | .codec error => decode error
  | error => configuration error.message

/-- A fault of the store, by its cause. -/
def ofStoreError : StoreError → MapError
  | .rejected reason => writeRejected reason
  | .missingCapability id partition => missingCapability id partition
  | .operator error => ofOperatorError error
  | .duplicatePriority priority existing id => store (.duplicatePriority priority existing id)

/-- The store refused a batch and is as it was. -/
def isWriteRejection : MapError → Bool
  | writeRejected _ => true
  | _ => false

end MapError

end Strata
