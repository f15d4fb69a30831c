/-
**Writing to a map.**

Every write opens a batch, fills it and sends it, so it is applied as a whole or not at all.  A
write that cannot be made returns its fault and no container: the old one stays.

* `Container.put`, `Container.putWithoutGet`, `Container.remove` — one key;
* `Container.importAll`, `Container.putAll` — many pairs at once;
* `Container.clear` — all keys.
-/

import Strata.Map.Batch
import Strata.View.Read

set_option relaxedAutoImplicit false
set_option autoImplicit false

namespace Strata

namespace Container

/-- Sends mutations in a batch of their own.  They are made while the batch is open. -/
def writeAll (c : Container) (mutations : Except MapError (List Mutation)) :
    Except MapError Container := do
  let opened ← c.takeSlot
  let sent ← opened.send (← mutations)
  return sent.freeSlot

/-- Writes a value without looking at what was there. -/
def putWithoutGet (c : Container) (v : View) (key value : Value) : Except MapError Container := do
  requireWritable v .put
  c.writeAll ((c.schema.putMutation key value).map fun m => [m])

/-- Writes a value and returns the newest one before it. -/
def put (c : Container) (v : View) (key value : Value) :
    Except MapError (Option Value × Container) := do
  requireWritable v .put
  let previous ← v.get c.store key
  return (previous, ← c.putWithoutGet v key value)

/-- Removes a key with all its values and returns the newest of them; a key that is not there is
left alone. -/
def remove (c : Container) (v : View) (key : Value) :
    Except MapError (Option Value × Container) := do
  requireWritable v .remove
  let previous ← v.get c.store key
  if previous.isSome then
    return (previous, ← c.writeAll ((c.schema.removeMutation key).map fun m => [m]))
  else return (previous, c)

/-- Writes pairs, each changed first, and returns the checksum of the pairs as they were given. -/
def importAll (c : Container) (v : View) (change : Value × Value → Value × Value)
    (pairs : List (Value × Value)) : Except MapError (UInt64 × Container) := do
  requireWritable v .importAll
  let written ← c.writeAll
    (pairs.mapM fun pair => c.schema.putMutation (change pair).1 (change pair).2)
  return ((Checksum.ofPairs pairs).packed, written)

/-- Writes pairs. -/
def putAll (c : Container) (v : View) (pairs : List (Value × Value)) :
    Except MapError Container := do
  let (_, written) ← c.importAll v id pairs
  return written

/-- Removes all keys. -/
def clear (c : Container) (v : View) : Except MapError Container := do
  requireWritable v .clear
  c.writeAll do
    let items ← v.scan c.store none .latest
    items.mapM fun item => item.map fun e => .delete e.key

end Container

end Strata
