/-
**Batches.**

A batch collects mutations, encoded as they are added, until they are sent to the store as a whole.
A map has at most one batch open.  Sending or discarding a batch frees the slot, whether or not the
store accepts it.

* `Batch`, `Batch.put`, `Batch.remove` — collecting mutations;
* `Container.openBatch`, `Container.submit`, `Container.discard` — the slot.
-/

import Strata.Map.Container

set_option relaxedAutoImplicit false
set_option autoImplicit false

namespace Strata

/-- Mutations that wait to be sent. -/
structure Batch where
  mutations : List Mutation
  deriving DecidableEq, Repr

/-- The bytes of a key. -/
def Schema.encodeKey (s : Schema) (key : Value) : Except MapError Bytes :=
  (s.keyCodec.encode key).mapError .decode

/-- The bytes of a value. -/
def Schema.encodeValue (s : Schema) (value : Value) : Except MapError Bytes :=
  (s.valueCodec.encode value).mapError .decode

/-- The mutation that writes a value, its key encoded first. -/
def Schema.putMutation (s : Schema) (key value : Value) : Except MapError Mutation := do
  let key ← s.encodeKey key
  let value ← s.encodeValue value
  return .put key value

/-- The mutation that removes a key. -/
def Schema.removeMutation (s : Schema) (key : Value) : Except MapError Mutation :=
  (s.encodeKey key).map .delete

namespace Batch

def empty : Batch := ⟨[]⟩

def size (b : Batch) : Nat := b.mutations.length

def isEmpty (b : Batch) : Bool := b.mutations.isEmpty

/-- The batch with one more mutation. -/
def push (b : Batch) (m : Mutation) : Batch := ⟨b.mutations ++ [m]⟩

/-- The batch with a value written. -/
def put (b : Batch) (s : Schema) (key value : Value) : Except MapError Batch :=
  (s.putMutation key value).map b.push

/-- The batch with a key removed. -/
def remove (b : Batch) (s : Schema) (key : Value) : Except MapError Batch :=
  (s.removeMutation key).map b.push

/-- The batch in one line. -/
def describe (b : Batch) : String := "BatchWriter \x7b mutations: " ++ Nat.repr b.size ++ " \x7d"

end Batch

namespace Container

/-- Checks that a view may be written to. -/
def requireWritable (v : View) (operation : MapOperation) : Except MapError Unit :=
  if v.isReadOnly then .error (.readOnly operation) else .ok ()

/-- Takes the slot for a batch. -/
def takeSlot (c : Container) : Except MapError Container :=
  if c.batchOpen then .error .batchInProgress else .ok { c with batchOpen := true }

/-- Frees the slot. -/
def freeSlot (c : Container) : Container := { c with batchOpen := false }

/-- Opens a batch on a view. -/
def openBatch (c : Container) (v : View) : Except MapError Container := do
  requireWritable v .openBatch
  c.takeSlot

/-- Sends mutations to the store; none need not be sent. -/
def send (c : Container) (mutations : List Mutation) : Except MapError Container :=
  if mutations.isEmpty then .ok c
  else
    match c.store.writeBatch mutations with
    | .ok store => .ok { c with store := store }
    | .error e => .error (.ofStoreError e)

/-- Sends a batch.  The slot is free afterwards in any case. -/
def submit (c : Container) (b : Batch) : Except MapError Unit × Container :=
  match c.freeSlot.send b.mutations with
  | .ok c => (.ok (), c)
  | .error e => (.error e, c.freeSlot)

/-- Drops a batch. -/
def discard (c : Container) : Container := c.freeSlot

end Container

end Strata
