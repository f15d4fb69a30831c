/-
**Writes step by step.**

A write takes the slot, fills a batch, sends it and frees the slot, and each of these steps may be
its last.  Here the container is a state that one step after another changes, and a step that fails
leaves it as it is by then: nothing is undone.  A batch that could not be filled is dropped, a batch
that was sent is gone, and both free the slot; a batch that could not be opened does not.  Going
step by step answers what the functions of a container answer, and a failure leaves the old
container.

* `Stepwise`, `Stepwise.on` — work on a container that may fail on the way;
* `Stepwise.openBatch`, `Stepwise.submit`, `Stepwise.inBatch` — a batch from its opening to its end;
* `WholeWrite`, `ViewWrite` — what may be asked of a view that would write;
* `Stepwise.on_inBatch`, `WholeWrite.on_steps`, `ViewWrite.on_steps` — **step by step and at once**;
* `WholeWrite.atOnce_eq` — every write reads first and then writes one batch;
* `ViewWrite.unchanged_of_failed` — **a write that fails changes nothing**.
-/

import Strata.Proofs.Map.Calls
import Strata.Proofs.View.Derived

set_option relaxedAutoImplicit false
set_option autoImplicit false

namespace Strata

namespace Container

variable {v : View}

theorem requireWritable_eq_ok (hv : v.isReadOnly = false) (operation : MapOperation) :
    requireWritable v operation = .ok () := by
  rw [requireWritable, hv]
  rfl

theorem requireWritable_eq_error (hv : v.isReadOnly = true) (operation : MapOperation) :
    requireWritable v operation = .error (.readOnly operation) := by
  rw [requireWritable, hv]
  rfl

variable {c next : Container}

theorem takeSlot_of_free (h : c.batchOpen = false) :
    c.takeSlot = .ok { c with batchOpen := true } := by
  rw [takeSlot, h]
  rfl

theorem takeSlot_of_open (h : c.batchOpen = true) : c.takeSlot = .error .batchInProgress := by
  rw [takeSlot, h]
  rfl

/-- A failure leaves the old container. -/
theorem keep_of_error {α : Type} {written : Except MapError (α × Container)} {fault : MapError}
    (h : (c.keep written).1 = .error fault) : (c.keep written).2 = c := by
  cases written with
  | error e => rfl
  | ok made => cases h

/-- A write with a batch of its own takes the slot and frees it. -/
theorem slot_of_writeAll {mutations : Except MapError (List Mutation)}
    (h : c.writeAll mutations = .ok next) : next.batchOpen = c.batchOpen := by
  obtain ⟨opened, hopened, h⟩ := bind_eq_ok.1 h
  obtain ⟨batch, -, h⟩ := bind_eq_ok.1 h
  obtain ⟨sent, -, h⟩ := bind_eq_ok.1 h
  obtain rfl := Except.ok.inj h
  cases hslot : c.batchOpen with
  | false => rfl
  | true =>
      rw [takeSlot_of_open hslot] at hopened
      cases hopened

/-- Sending a batch frees the slot and changes nothing else if the store refuses it. -/
theorem submit_spec (c : Container) (b : Batch) :
    (c.submit b).2.batchOpen = false ∧
      ∀ fault, (c.submit b).1 = .error fault → (c.submit b).2 = c.freeSlot := by
  rw [submit_eq]
  refine ⟨?_, fun fault => keep_of_error⟩
  cases hwritten : c.freeSlot.written b.mutations with
  | error e => rfl
  | ok next =>
      obtain ⟨-, rfl⟩ := written_eq_ok hwritten
      rfl

end Container

/-! ### Work on a container -/

/-- Work that changes a container step by step.  Where it fails the container stays as it is by
then. -/
abbrev Stepwise (α : Type) := ExceptT MapError (StateM Container) α

namespace Stepwise

variable {α β : Type}

/-- What work answers, and the container that it leaves. -/
def on (work : Stepwise α) (c : Container) : Except MapError α × Container := work.run.run c

/-- Frees the slot when work is over, however that ended. -/
def thenFree (work : Stepwise α) : Stepwise α :=
  ExceptT.mk fun c => ((work.on c).1, (work.on c).2.freeSlot)

/-- Frees the slot when work failed. -/
def orFree (work : Stepwise α) : Stepwise α :=
  ExceptT.mk fun c =>
    match work.on c with
    | (.ok a, left) => (.ok a, left)
    | (.error e, left) => (.error e, left.freeSlot)

/-! ### Batches -/

/-- Opens a batch on a view. -/
def openBatch (v : View) : Stepwise Batch := do
  Container.requireWritable v .openBatch
  let c ← get
  if c.batchOpen then throw .batchInProgress
  set { c with batchOpen := true }
  return .empty

/-- Applies mutations, one after the other. -/
def applyEach : List Mutation → Stepwise Unit
  | [] => return
  | m :: batch => do
    modify fun c => { c with store := c.store.apply m }
    applyEach batch

/-- Sends mutations; none need not be sent.  The store checks all of them before it applies the
first. -/
def send (batch : List Mutation) : Stepwise Unit := do
  if batch.isEmpty then return
  match (← get).store.limits.checkBatch batch with
  | .error violation => throw (.ofStoreError (.ofViolation violation))
  | .ok () => applyEach batch

/-- Sends a batch and frees the slot. -/
def submit (b : Batch) : Stepwise Unit := thenFree (send b.mutations)

/-- Opens a batch, fills it and sends it.  A batch that cannot be filled is dropped. -/
def inBatch (v : View) (fill : Batch → Stepwise Batch) : Stepwise Unit := do
  let opened ← openBatch v
  let filled ← orFree (fill opened)
  submit filled

/-! ### Writes -/

/-- Fills a batch one by one with what is made of each thing. -/
def pushEach {α : Type} (make : Schema → α → Except MapError Mutation) :
    List α → Batch → Stepwise Batch
  | [], b => return b
  | x :: xs, b => do
    let m ← make (← get).schema x
    pushEach make xs (b.push m)

/-- Writes a value without looking at what was there. -/
def putWithoutGet (v : View) (key value : Value) : Stepwise Unit := do
  Container.requireWritable v .put
  inBatch v fun b => do b.put (← get).schema key value

/-- Writes a value and returns the newest one before it. -/
def put (v : View) (key value : Value) : Stepwise (Option Value) := do
  Container.requireWritable v .put
  let previous ← v.get (← get).store key
  putWithoutGet v key value
  return previous

/-- Removes a key with all its values and returns the newest of them; a key that is not there is
left alone. -/
def remove (v : View) (key : Value) : Stepwise (Option Value) := do
  Container.requireWritable v .remove
  let previous ← v.get (← get).store key
  if previous.isSome then
    inBatch v fun b => do b.remove (← get).schema key
  return previous

/-- Writes pairs, each changed first, and returns the checksum of the pairs as they were given. -/
def importAll (v : View) (change : Value × Value → Value × Value) (pairs : List (Value × Value)) :
    Stepwise UInt64 := do
  Container.requireWritable v .importAll
  inBatch v (pushEach (fun s pair => s.putMutation (change pair).1 (change pair).2) pairs)
  return (Checksum.ofPairs pairs).packed

/-- Writes pairs. -/
def putAll (v : View) (pairs : List (Value × Value)) : Stepwise Unit := do
  let _ ← importAll v id pairs

/-- Removes all keys. -/
def clear (v : View) : Stepwise Unit := do
  Container.requireWritable v .clear
  inBatch v fun b => do
    let items ← v.scan (← get).store none .latest
    pushEach (fun _ item => item.map fun e => .delete e.key) items b

/-! ### One step after another -/

variable {c : Container}

@[simp] theorem on_get : on get c = (.ok c, c) := rfl

@[simp] theorem on_lift (result : Except MapError α) :
    on (liftM result : Stepwise α) c = (result, c) := by
  cases result <;> rfl

@[simp] theorem on_thenFree (work : Stepwise α) :
    on (thenFree work) c = ((work.on c).1, (work.on c).2.freeSlot) := rfl

@[simp] theorem on_orFree (work : Stepwise α) :
    on (orFree work) c =
      match work.on c with
      | (.ok a, left) => (.ok a, left)
      | (.error e, left) => (.error e, left.freeSlot) := rfl

theorem on_bind (work : Stepwise α) (next : α → Stepwise β) :
    on (work >>= next) c =
      match work.on c with
      | (.ok a, c) => (next a).on c
      | (.error e, c) => (.error e, c) := by
  show (ExceptT.bindCont next (work.on c).1).run (work.on c).2 = _
  cases hwork : work.on c with
  | mk answer left => cases answer <;> rfl

theorem on_map (f : α → β) (work : Stepwise α) :
    on (f <$> work) c = ((work.on c).1.map f, (work.on c).2) := by
  rw [← bind_pure_comp, on_bind]
  cases hwork : work.on c with
  | mk answer left => cases answer <;> rfl

/-- Another answer to work that keeps the old container where it fails. -/
theorem on_map_of_keep (f : α → β) {work : Stepwise α}
    {written : Except MapError (α × Container)} (h : work.on c = c.keep written) :
    on (f <$> work) c = c.keep (written.map (Prod.map f id)) := by
  rw [on_map, h]
  cases written <;> rfl

/-- Steps behind work that fails are not made. -/
theorem on_bind_of_error {work : Stepwise α} {e : MapError} {left : Container}
    (h : work.on c = (.error e, left)) (next : α → Stepwise β) :
    on (work >>= next) c = (.error e, left) := by
  rw [on_bind, h]

theorem on_bind_of_ok {work : Stepwise α} {a : α} {left : Container}
    (h : work.on c = (.ok a, left)) (next : α → Stepwise β) :
    on (work >>= next) c = (next a).on left := by
  rw [on_bind, h]

/-! ### Step by step and at once -/

variable {v : View}

theorem on_openBatch (hv : v.isReadOnly = false) :
    on (openBatch v) c = c.keep (c.takeSlot.map (Batch.empty, ·)) := by
  obtain ⟨store, schema, batchOpen⟩ := c
  rw [openBatch, Container.requireWritable_eq_ok hv]
  cases batchOpen <;> rfl

theorem on_applyEach (batch : List Mutation) :
    on (applyEach batch) c = (.ok (), { c with store := batch.foldl Store.apply c.store }) := by
  induction batch generalizing c with
  | nil => rfl
  | cons m batch ih => exact ih

theorem on_send (batch : List Mutation) :
    on (send batch) c = c.keep ((c.written batch).map ((), ·)) := by
  rw [send, Container.written]
  split
  · next hempty =>
    -- nothing need not be sent, and would be accepted
    obtain rfl : batch = [] := List.isEmpty_iff.1 hempty
    rfl
  · rw [on_bind_of_ok on_get]
    cases c.store.limits.checkBatch batch with
    | error violation => rfl
    | ok => exact on_applyEach batch

/-- Sending a batch step by step. -/
theorem on_submit (b : Batch) : on (submit b) c = c.submit b := by
  rw [submit, on_thenFree, on_send, Container.submit_eq]
  obtain ⟨store, schema, batchOpen⟩ := c
  simp only [Container.written, Container.freeSlot]
  cases store.limits.checkBatch b.mutations <;> rfl

theorem on_pushEach (make : Schema → α → Except MapError Mutation) (xs : List α) (b : Batch) :
    on (pushEach make xs b) c =
      ((xs.mapM (make c.schema)).map fun made => ⟨b.mutations ++ made⟩, c) := by
  induction xs generalizing b with
  | nil =>
      show (.ok b, c) = (Except.ok ⟨b.mutations ++ []⟩, c)
      rw [List.append_nil]
  | cons x xs ih =>
      rw [pushEach, on_bind_of_ok on_get, on_bind, on_lift, List.mapM_cons]
      cases make c.schema x with
      | error e => rfl
      | ok m =>
          show on (pushEach make xs (b.push m)) c = _
          rw [ih]
          cases xs.mapM (make c.schema) with
          | error e => rfl
          | ok made =>
              show (Except.ok (Batch.mk (b.mutations ++ [m] ++ made)), c) =
                (Except.ok (Batch.mk (b.mutations ++ m :: made)), c)
              rw [List.append_assoc, List.singleton_append]

/-- A batch that was filled from nothing. -/
theorem on_pushEach_empty (make : Schema → α → Except MapError Mutation) (xs : List α) :
    on (pushEach make xs .empty) c = ((xs.mapM (make c.schema)).map Batch.mk, c) :=
  on_pushEach make xs .empty

/-- **A batch from its opening to its end is one write**, if filling it changes nothing. -/
theorem on_inBatch (hv : v.isReadOnly = false) {fill : Batch → Stepwise Batch}
    {mutations : Except MapError (List Mutation)}
    (hfill : on (fill .empty) { c with batchOpen := true } =
      (mutations.map Batch.mk, { c with batchOpen := true })) :
    on (inBatch v fill) c = c.keep ((c.writeAll mutations).map ((), ·)) := by
  obtain ⟨store, schema, batchOpen⟩ := c
  cases batchOpen with
  | true => exact on_bind_of_error (on_openBatch hv) _
  | false =>
      rw [inBatch, on_bind_of_ok (on_openBatch hv), on_bind, on_orFree,
        show on (fill .empty) _ = _ from hfill, Container.writeAll_eq rfl]
      cases mutations with
      | error e => rfl
      | ok batch =>
          show on (submit ⟨batch⟩) ⟨store, schema, true⟩ = _
          rw [on_submit, Container.submit_eq]
          rfl

/-! ### The writes -/

theorem on_putWithoutGet (hv : v.isReadOnly = false) (key value : Value) :
    on (putWithoutGet v key value) c = c.keep ((c.putWithoutGet v key value).map ((), ·)) := by
  rw [putWithoutGet, Container.putWithoutGet, Container.requireWritable_eq_ok hv]
  refine on_inBatch hv ?_
  show on (liftM (Batch.empty.put c.schema key value)) _ = _
  rw [on_lift, Batch.put]
  cases c.schema.putMutation key value <;> rfl

theorem on_put (hv : v.isReadOnly = false) (key value : Value) :
    on (put v key value) c = c.keep (c.put v key value) := by
  rw [put, Container.put, Container.requireWritable_eq_ok hv]
  show on (liftM (v.get c.store key) >>= _) c = c.keep ((v.get c.store key).bind _)
  rw [on_bind, on_lift]
  cases v.get c.store key with
  | error e => rfl
  | ok previous =>
      show on (putWithoutGet v key value >>= _) c = c.keep ((c.putWithoutGet v key value).bind _)
      rw [on_bind, on_putWithoutGet hv]
      cases c.putWithoutGet v key value <;> rfl

theorem on_remove (hv : v.isReadOnly = false) (key : Value) :
    on (remove v key) c = c.keep (c.remove v key) := by
  rw [remove, Container.remove, Container.requireWritable_eq_ok hv]
  show on (liftM (v.get c.store key) >>= _) c = c.keep ((v.get c.store key).bind _)
  rw [on_bind, on_lift]
  cases v.get c.store key with
  | error e => rfl
  | ok previous =>
      cases previous with
      | none => rfl
      | some value =>
          have hbatch : on (inBatch v fun b => do b.remove (← get).schema key) c =
              c.keep ((c.writeAll ((c.schema.removeMutation key).map fun m => [m])).map
                ((), ·)) := by
            refine on_inBatch hv ?_
            show on (liftM (Batch.empty.remove c.schema key)) _ = _
            rw [on_lift, Batch.remove]
            cases c.schema.removeMutation key <;> rfl
          show on (inBatch v _ >>= _) c = c.keep ((c.writeAll _).bind _)
          rw [on_bind, hbatch]
          cases c.writeAll ((c.schema.removeMutation key).map fun m => [m]) <;> rfl

theorem on_importAll (hv : v.isReadOnly = false) (change : Value × Value → Value × Value)
    (pairs : List (Value × Value)) :
    on (importAll v change pairs) c = c.keep (c.importAll v change pairs) := by
  rw [importAll, Container.importAll, Container.requireWritable_eq_ok hv]
  show on (inBatch v _ >>= _) c = c.keep ((c.writeAll _).bind _)
  rw [on_bind, on_inBatch hv (on_pushEach_empty _ pairs)]
  dsimp only
  cases c.writeAll (pairs.mapM fun pair => c.schema.putMutation (change pair).1 (change pair).2) <;>
    rfl

theorem on_putAll (hv : v.isReadOnly = false) (pairs : List (Value × Value)) :
    on (putAll v pairs) c = c.keep ((c.putAll v pairs).map ((), ·)) := by
  rw [putAll, Container.putAll, on_bind, on_importAll hv]
  cases c.importAll v id pairs <;> rfl

theorem on_clear (hv : v.isReadOnly = false) :
    on (clear v) c = c.keep ((c.clear v).map ((), ·)) := by
  rw [clear, Container.clear, Container.requireWritable_eq_ok hv]
  refine on_inBatch hv ?_
  show on (liftM (v.scan c.store none .latest) >>= _) _ = _
  rw [on_bind, on_lift]
  cases v.scan c.store none .latest with
  | error e => rfl
  | ok items => exact on_pushEach_empty _ items

end Stepwise

/-! ### What may be asked of a view -/

/-- The writes that open a batch of their own. -/
inductive WholeWrite where
  | put (key value : Value)
  | putWithoutGet (key value : Value)
  | remove (key : Value)
  | putAll (pairs : List (Value × Value))
  | importAll (change : Value × Value → Value × Value) (pairs : List (Value × Value))
  | clear

/-- What is answered to a write that was made. -/
inductive WriteAnswer where
  | done
  /-- The newest value before the write. -/
  | previous (value : Option Value)
  /-- The checksum of what was imported. -/
  | imported (checksum : UInt64)

namespace WholeWrite

/-- The name by which a view refuses the write. -/
def operation : WholeWrite → MapOperation
  | put _ _ | putWithoutGet _ _ => .put
  | remove _ => .remove
  | putAll _ | importAll _ _ => .importAll
  | clear => .clear

/-- The write, step by step. -/
def steps (v : View) : WholeWrite → Stepwise WriteAnswer
  | put key value => .previous <$> Stepwise.put v key value
  | putWithoutGet key value => (fun _ => .done) <$> Stepwise.putWithoutGet v key value
  | remove key => .previous <$> Stepwise.remove v key
  | putAll pairs => (fun _ => .done) <$> Stepwise.putAll v pairs
  | importAll change pairs => .imported <$> Stepwise.importAll v change pairs
  | clear => (fun _ => .done) <$> Stepwise.clear v

/-- The write at once. -/
def atOnce (c : Container) (v : View) : WholeWrite → Except MapError (WriteAnswer × Container)
  | put key value => (c.put v key value).map (Prod.map .previous id)
  | putWithoutGet key value => (c.putWithoutGet v key value).map (.done, ·)
  | remove key => (c.remove v key).map (Prod.map .previous id)
  | putAll pairs => (c.putAll v pairs).map (.done, ·)
  | importAll change pairs => (c.importAll v change pairs).map (Prod.map .imported id)
  | clear => (c.clear v).map (.done, ·)

variable {c : Container} {v : View}

/-- **A view that is no map refuses every write**, before anything else is done. -/
theorem refused (hv : v.isReadOnly = true) (w : WholeWrite) :
    (w.steps v).on c = (.error (.readOnly w.operation), c) ∧
      w.atOnce c v = .error (.readOnly w.operation) := by
  cases w <;> constructor <;>
    simp only [steps, atOnce, Stepwise.put, Stepwise.putWithoutGet, Stepwise.remove,
      Stepwise.putAll, Stepwise.importAll, Stepwise.clear, Container.put, Container.putWithoutGet,
      Container.remove, Container.putAll, Container.importAll, Container.clear,
      Container.requireWritable_eq_error hv] <;> rfl

/-- **Going step by step answers what the write answers at once**, and a failure leaves the old
container. -/
theorem on_steps (w : WholeWrite) : (w.steps v).on c = c.keep (w.atOnce c v) := by
  cases hv : v.isReadOnly with
  | true =>
      obtain ⟨hsteps, hatOnce⟩ := refused (c := c) hv w
      rw [hsteps, hatOnce]
      rfl
  | false =>
      have hdone : ∀ {work : Stepwise Unit} {written : Except MapError Container},
          work.on c = c.keep (written.map ((), ·)) →
            ((fun _ => WriteAnswer.done) <$> work).on c = c.keep (written.map (.done, ·)) := by
        intro work written hwork
        rw [Stepwise.on_map_of_keep _ hwork]
        cases written <;> rfl
      cases w with
      | put key value => exact Stepwise.on_map_of_keep _ (Stepwise.on_put hv key value)
      | putWithoutGet key value => exact hdone (Stepwise.on_putWithoutGet hv key value)
      | remove key => exact Stepwise.on_map_of_keep _ (Stepwise.on_remove hv key)
      | putAll pairs => exact hdone (Stepwise.on_putAll hv pairs)
      | importAll change pairs =>
          exact Stepwise.on_map_of_keep _ (Stepwise.on_importAll hv change pairs)
      | clear => exact hdone (Stepwise.on_clear hv)

/-- What a write reads before it opens a batch: what it will answer, and if there is anything to
write at all. -/
def reads (c : Container) (v : View) : WholeWrite → Except MapError (WriteAnswer × Bool)
  | put key _ => (v.get c.store key).map fun previous => (.previous previous, true)
  | remove key => (v.get c.store key).map fun previous => (.previous previous, previous.isSome)
  | importAll _ pairs => .ok (.imported (Checksum.ofPairs pairs).packed, true)
  | putWithoutGet _ _ | putAll _ | clear => .ok (.done, true)

/-- The mutations that a write puts into its batch. -/
def mutations (c : Container) (v : View) : WholeWrite → Except MapError (List Mutation)
  | put key value | putWithoutGet key value => (c.schema.putMutation key value).map fun m => [m]
  | remove key => (c.schema.removeMutation key).map fun m => [m]
  | putAll pairs => Container.mutationsOf c.schema id pairs
  | importAll change pairs => Container.mutationsOf c.schema change pairs
  | clear => Container.removalsOf (v.scan c.store none .latest)

/-- **Every write reads first and then writes one batch**, unless there is nothing to write. -/
theorem atOnce_eq (hv : v.isReadOnly = false) (w : WholeWrite) :
    w.atOnce c v = (w.reads c v).bind fun found =>
      if found.2 then (c.writeAll (w.mutations c v)).map (found.1, ·) else .ok (found.1, c) := by
  cases w with
  | put key value =>
      simp only [atOnce, reads, mutations, Container.put, Container.putWithoutGet,
        Container.requireWritable_eq_ok hv]
      cases v.get c.store key with
      | error e => rfl
      | ok previous =>
          show ((c.writeAll _).bind _).map _ = (c.writeAll _).map _
          cases c.writeAll ((c.schema.putMutation key value).map fun m => [m]) <;> rfl
  | putWithoutGet key value =>
      simp only [atOnce, Container.putWithoutGet, Container.requireWritable_eq_ok hv]
      rfl
  | remove key =>
      simp only [atOnce, reads, mutations, Container.remove, Container.requireWritable_eq_ok hv]
      cases v.get c.store key with
      | error e => rfl
      | ok previous =>
          cases previous with
          | none => rfl
          | some value =>
              show ((c.writeAll _).bind _).map _ = (c.writeAll _).map _
              cases c.writeAll ((c.schema.removeMutation key).map fun m => [m]) <;> rfl
  | putAll pairs =>
      simp only [atOnce, Container.putAll, Container.importAll, Container.requireWritable_eq_ok hv]
      show (((c.writeAll (Container.mutationsOf c.schema id pairs)).bind _).bind _).map _ =
        (c.writeAll (Container.mutationsOf c.schema id pairs)).map _
      cases c.writeAll (Container.mutationsOf c.schema id pairs) <;> rfl
  | importAll change pairs =>
      simp only [atOnce, Container.importAll, Container.requireWritable_eq_ok hv]
      show ((c.writeAll (Container.mutationsOf c.schema change pairs)).bind _).map _ =
        (c.writeAll (Container.mutationsOf c.schema change pairs)).map _
      cases c.writeAll (Container.mutationsOf c.schema change pairs) <;> rfl
  | clear =>
      simp only [atOnce, Container.clear, Container.requireWritable_eq_ok hv]
      rfl

/-- The slot is after a write as it was before. -/
theorem slot_of_atOnce {w : WholeWrite} {answer : WriteAnswer} {next : Container}
    (h : w.atOnce c v = .ok (answer, next)) : next.batchOpen = c.batchOpen := by
  cases hv : v.isReadOnly with
  | true =>
      rw [(refused hv w).2] at h
      cases h
  | false =>
      rw [atOnce_eq hv] at h
      obtain ⟨⟨answer', writes⟩, -, h⟩ := bind_eq_ok.1 h
      cases writes with
      | false =>
          obtain ⟨-, rfl⟩ := Prod.mk.inj (Except.ok.inj h)
          rfl
      | true =>
          obtain ⟨written, hwritten, heq⟩ := map_eq_ok.1 h
          obtain ⟨-, rfl⟩ := Prod.mk.inj heq
          exact Container.slot_of_writeAll hwritten

end WholeWrite

/-- What may be asked of a view that would write, and of a batch that was opened on it. -/
inductive ViewWrite where
  | whole (w : WholeWrite)
  | openBatch
  | submit (b : Batch)

namespace ViewWrite

/-- The name by which a view refuses what it is asked; a batch is not sent by the view. -/
def operation? : ViewWrite → Option MapOperation
  | whole w => some w.operation
  | openBatch => some .openBatch
  | submit _ => none

/-- What is asked, step by step. -/
def steps (v : View) : ViewWrite → Stepwise WriteAnswer
  | whole w => w.steps v
  | openBatch => (fun _ => .done) <$> Stepwise.openBatch v
  | submit b => (fun _ => .done) <$> Stepwise.submit b

/-- What is asked, at once. -/
def atOnce (c : Container) (v : View) : ViewWrite → Except MapError WriteAnswer × Container
  | whole w => c.keep (w.atOnce c v)
  | openBatch => c.keep ((c.openBatch v).map (.done, ·))
  | submit b => (c.submit b).map (Except.map fun _ => .done) id

/-- The slot after a failure: sending a batch frees it in any case. -/
def slotAfter (c : Container) : ViewWrite → Bool
  | whole _ | openBatch => c.batchOpen
  | submit _ => false

variable {c : Container} {v : View}

theorem on_steps (w : ViewWrite) : (w.steps v).on c = w.atOnce c v := by
  cases w with
  | whole w => exact w.on_steps
  | openBatch =>
      rw [steps, atOnce, Container.openBatch]
      cases hv : v.isReadOnly with
      | true =>
          rw [Stepwise.openBatch, Container.requireWritable_eq_error hv]
          rfl
      | false =>
          rw [Stepwise.on_map_of_keep _ (Stepwise.on_openBatch hv),
            Container.requireWritable_eq_ok hv]
          show c.keep ((c.takeSlot.map _).map _) = c.keep (c.takeSlot.map _)
          cases c.takeSlot <;> rfl
  | submit b =>
      rw [steps, atOnce, Stepwise.on_map, Stepwise.on_submit]
      rfl

/-- A view that is no map refuses what it is asked, step by step and at once. -/
theorem refused (hv : v.isReadOnly = true) {w : ViewWrite} {operation : MapOperation}
    (hoperation : w.operation? = some operation) :
    (w.steps v).on c = (.error (.readOnly operation), c) := by
  cases w with
  | whole w =>
      obtain rfl := Option.some.inj hoperation
      exact (w.refused hv).1
  | openBatch =>
      obtain rfl := Option.some.inj hoperation
      rw [on_steps, atOnce, Container.openBatch, Container.requireWritable_eq_error hv]
      rfl
  | submit b => cases hoperation

/-- A failure leaves all but the slot as it was. -/
theorem atOnce_of_error {w : ViewWrite} {fault : MapError}
    (h : (w.atOnce c v).1 = .error fault) :
    (w.atOnce c v).2 = { c with batchOpen := w.slotAfter c } := by
  cases w with
  | whole w =>
      have hkept : (c.keep (w.atOnce c v)).2 = c := Container.keep_of_error h
      exact hkept
  | openBatch =>
      have hkept : (c.keep ((c.openBatch v).map (WriteAnswer.done, ·))).2 = c :=
        Container.keep_of_error h
      exact hkept
  | submit b =>
      show (c.submit b).2 = c.freeSlot
      cases hsent : (c.submit b).1 with
      | error e => exact (Container.submit_spec c b).2 e hsent
      | ok => simp [atOnce, hsent, Except.map] at h

/-- **Whatever fails changes nothing.**  A view is asked for a write or for a batch, or a batch is
sent, and it goes through this step by step.  It ends as it does at once.  If it fails everything is
as it was, and so is the slot, but for a batch that was sent: that is gone.  A write with a batch of
its own leaves the slot as it was even if it does not fail.  A view that was derived refuses every
write and every batch, whatever is to be written and however the container stands. -/
theorem unchanged_of_failed (c : Container) (v : View) (w : ViewWrite) :
    let after := (w.steps v).on c
    after = w.atOnce c v ∧
    (∀ fault, after.1 = .error fault → after.2 = { c with batchOpen := w.slotAfter c }) ∧
    (∀ whole, w = .whole whole → after.2.batchOpen = c.batchOpen) ∧
    (∀ b, w = .submit b → after.2.batchOpen = false) ∧
    (∀ derivations, derivations ≠ [] → c.base.derived derivations = .ok v →
      ∀ operation ∈ w.operation?, after = (.error (.readOnly operation), c)) := by
  intro after
  have hatOnce : after = w.atOnce c v := w.on_steps
  refine ⟨hatOnce, fun fault hfault => ?_, ?_, ?_, ?_⟩
  · rw [hatOnce] at hfault ⊢
    exact atOnce_of_error hfault
  · rintro whole rfl
    rw [hatOnce, atOnce]
    cases hwritten : whole.atOnce c v with
    | error e => rfl
    | ok made => exact WholeWrite.slot_of_atOnce hwritten
  · rintro b rfl
    rw [hatOnce]
    exact (Container.submit_spec c b).1
  · intro derivations hne hderived operation hoperation
    refine refused ?_ hoperation
    simpa [View.isReadOnly] using View.kind_derived_ne_base hne hderived

end ViewWrite

end Strata
