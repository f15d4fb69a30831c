/-
**Limits on what is written.**

A batch that breaks a limit is refused as a whole.  The number of mutations is looked at first, then
each mutation in turn, its key before its value.
-/

import Strata.Entry

set_option relaxedAutoImplicit false
set_option autoImplicit false

namespace Strata

/-- The greatest sizes that a store accepts. -/
structure Limits where
  maxKeyBytes : Nat
  maxValueBytes : Nat
  maxBatchMutations : Nat
  deriving DecidableEq, Repr

/-- Which limit was broken, by how much. -/
inductive LimitViolation where
  | keyTooLong (actual max : Nat)
  | valueTooLarge (actual max : Nat)
  | batchTooLarge (actual max : Nat)
  deriving DecidableEq, Repr

def LimitViolation.message : LimitViolation → String
  | keyTooLong actual max => s!"key too long: {actual} bytes exceeds maximum {max}"
  | valueTooLarge actual max => s!"value too large: {actual} bytes exceeds maximum {max}"
  | batchTooLarge actual max => s!"batch too large: {actual} mutations exceeds maximum {max}"

namespace Limits

/-- The limits of a store that sets none: keys of a kilobyte, values of sixteen megabytes. -/
def standard : Limits := ⟨1024, 16 * 1024 * 1024, 1000000⟩

/-- Limits that are easily reached. -/
def small : Limits := ⟨100, 1000, 100⟩

/-- Checks the sizes of one mutation. -/
def checkMutation (limits : Limits) (m : Mutation) : Except LimitViolation Unit :=
  if limits.maxKeyBytes < m.key.length then
    .error (.keyTooLong m.key.length limits.maxKeyBytes)
  else
    match m with
    | .put _ value =>
      if limits.maxValueBytes < value.length then
        .error (.valueTooLarge value.length limits.maxValueBytes)
      else .ok ()
    | .delete _ => .ok ()

/-- Checks every mutation of a list, up to the first that breaks a limit. -/
def checkEach (limits : Limits) : List Mutation → Except LimitViolation Unit
  | [] => .ok ()
  | m :: rest =>
    match limits.checkMutation m with
    | .error violation => .error violation
    | .ok () => limits.checkEach rest

/-- Checks a whole batch. -/
def checkBatch (limits : Limits) (batch : List Mutation) : Except LimitViolation Unit :=
  if limits.maxBatchMutations < batch.length then
    .error (.batchTooLarge batch.length limits.maxBatchMutations)
  else limits.checkEach batch

end Limits

end Strata
