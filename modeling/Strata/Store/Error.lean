/-
**What a store refuses.**
-/

import Strata.Limits
import Strata.Operator.Basic

set_option relaxedAutoImplicit false
set_option autoImplicit false

namespace Strata

/-- Why a store refuses a write, a scan or an operator. -/
inductive StoreError where
  /-- A batch is refused as a whole. -/
  | rejected (reason : String)
  /-- A partition cannot run an operator. -/
  | missingCapability (operator : String) (partition : Nat)
  /-- The priority of an operator is held by another. -/
  | duplicatePriority (priority : Nat) (existing operator : String)
  /-- An operator cannot be built or cannot go on. -/
  | operator (error : OperatorError)
  deriving DecidableEq, Repr

namespace StoreError

def message : StoreError → String
  | rejected reason => s!"Write batch rejected: {reason}"
  | missingCapability id partition => s!"Operator {id} is not available on partition {partition}"
  | duplicatePriority priority existing id =>
    s!"Priority {priority} is already taken by {existing}; cannot install {id}"
  | operator error => s!"Operator error: {error.message}"

/-- A broken limit as the refusal of a batch. -/
def ofViolation (violation : LimitViolation) : StoreError := rejected violation.message

end StoreError

end Strata
