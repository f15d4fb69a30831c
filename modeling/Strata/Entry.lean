/-
**Entries and mutations.**

What a scan returns and what a write asks for.  Keys and values are bytes here; timestamps number
the writes of a store in their order.
-/

import Strata.Bytes

set_option relaxedAutoImplicit false
set_option autoImplicit false

namespace Strata

/-- One version of one key, as a scan returns it. -/
structure Entry where
  key : Bytes
  value : Bytes
  timestamp : Nat
  deriving DecidableEq, Repr

/-- One write of a batch. -/
inductive Mutation where
  /-- Writes a new version of a key. -/
  | put (key value : Bytes)
  /-- Removes every version of a key. -/
  | delete (key : Bytes)
  deriving DecidableEq, Repr

namespace Mutation

/-- The key that a mutation is about. -/
def key : Mutation → Bytes
  | put key _ => key
  | delete key => key

/-- The bytes that a mutation carries. -/
def size : Mutation → Nat
  | put key value => key.length + value.length
  | delete key => key.length

end Mutation

/-- How many versions of a key a scan returns. -/
inductive ScanMode where
  /-- The newest one. -/
  | latest
  /-- All that are kept, the newest first. -/
  | allVersions
  deriving DecidableEq, Repr

end Strata
