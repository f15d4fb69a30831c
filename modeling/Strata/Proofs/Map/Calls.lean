/-
**What may be asked of a map.**

A map is opened over an empty store and is then asked for one thing after another: single writes,
writes of many pairs, imports, removals, and whole batches, which are sent or dropped in the end.
What fails changes nothing.  Every other call leaves the store as it is or writes one batch that the
limits allow, and every value in that batch was encoded from a pair that the call was given.

* `BatchItem`, `MapCall`, `MapAnswer` — what is asked, and what is answered;
* `Container.call`, `Container.run` — one call, and one after another;
* `Container.writeAll_eq` — a write is one batch of the store;
* `Container.Ready` — **what holds of a map after any calls**, with `Container.ready_openMap`;
* `Container.writes_call`, `Container.Ready.run` — what a call does to the store, and calls do.
-/

import Strata.Map.Write
import Strata.Proofs.Store.Newest

set_option relaxedAutoImplicit false
set_option autoImplicit false

namespace Strata

/-! ### Calls -/

/-- What is put into a batch. -/
inductive BatchItem where
  | put (key value : Value)
  | remove (key : Value)

/-- What may be asked of a map that changes it. -/
inductive MapCall where
  | put (key value : Value)
  | putWithoutGet (key value : Value)
  | remove (key : Value)
  | putAll (pairs : List (Value × Value))
  | importAll (change : Value × Value → Value × Value) (pairs : List (Value × Value))
  | clear
  /-- A batch from its opening to its end, where it is sent or dropped. -/
  | batch (items : List BatchItem) (sent : Bool)

/-- What a map answers. -/
inductive MapAnswer where
  | done (outcome : Except MapError Unit)
  /-- The newest value before a write. -/
  | previous (outcome : Except MapError (Option Value))
  /-- The checksum of what was imported. -/
  | imported (outcome : Except MapError UInt64)
  /-- An answer to everything that was put into a batch, and one to its end. -/
  | batched (items : List (Except MapError Unit)) (outcome : Except MapError Unit)

/-- The mutation of what is put into a batch. -/
def BatchItem.mutation (s : Schema) : BatchItem → Except MapError Mutation
  | put key value => s.putMutation key value
  | remove key => s.removeMutation key

/-- The pairs that a call was given to write. -/
def MapCall.pairs : MapCall → List (Value × Value)
  | put key value | putWithoutGet key value => [(key, value)]
  | putAll pairs => pairs
  | importAll change pairs => pairs.map change
  | batch items _ => items.filterMap fun item =>
      match item with
      | .put key value => some (key, value)
      | .remove _ => none
  | remove _ | clear => []

namespace Batch

/-- Puts one thing into a batch. -/
def add (b : Batch) (s : Schema) : BatchItem → Except MapError Batch
  | .put key value => b.put s key value
  | .remove key => b.remove s key

/-- Puts things into a batch one after another; what cannot be encoded is answered with its fault
and left out. -/
def collect (s : Schema) (b : Batch) : List BatchItem → List (Except MapError Unit) × Batch
  | [] => ([], b)
  | item :: items =>
    match b.add s item with
    | .ok b =>
      let (answers, b) := collect s b items
      (.ok () :: answers, b)
    | .error e =>
      let (answers, b) := collect s b items
      (.error e :: answers, b)

end Batch

namespace Container

/-- The container after a write, or the old one if the write failed. -/
def keep {α : Type} (c : Container) (written : Except MapError (α × Container)) :
    Except MapError α × Container :=
  match written with
  | .ok (answer, next) => (.ok answer, next)
  | .error e => (.error e, c)

/-- Opens a batch, fills it, and sends or drops it. -/
def wholeBatch (c : Container) (items : List BatchItem) (sent : Bool) : MapAnswer × Container :=
  match c.openBatch c.base with
  | .error e => (.batched [] (.error e), c)
  | .ok opened =>
    let (answers, filled) := Batch.empty.collect opened.schema items
    if sent then Prod.map (MapAnswer.batched answers) (fun next => next) (opened.submit filled)
    else (.batched answers (.ok ()), opened.discard)

/-- Makes a call of a map. -/
def call (c : Container) : MapCall → MapAnswer × Container
  | .put key value => (c.keep (c.put c.base key value)).map .previous fun next => next
  | .putWithoutGet key value =>
    (c.keep ((c.putWithoutGet c.base key value).map ((), ·))).map .done fun next => next
  | .remove key => (c.keep (c.remove c.base key)).map .previous fun next => next
  | .putAll pairs => (c.keep ((c.putAll c.base pairs).map ((), ·))).map .done fun next => next
  | .importAll change pairs =>
    (c.keep (c.importAll c.base change pairs)).map .imported fun next => next
  | .clear => (c.keep ((c.clear c.base).map ((), ·))).map .done fun next => next
  | .batch items sent => c.wholeBatch items sent

/-- Makes calls, one after the other. -/
def run (c : Container) : List MapCall → List MapAnswer × Container
  | [] => ([], c)
  | call :: calls =>
    let (answer, next) := c.call call
    let (answers, last) := next.run calls
    (answer :: answers, last)

/-! ### Writes -/

variable {c next : Container}

/-- The container with a batch written to its store, if the limits allow it. -/
def written (c : Container) (batch : List Mutation) : Except MapError Container :=
  match c.store.limits.checkBatch batch with
  | .ok () => .ok { c with store := batch.foldl Store.apply c.store }
  | .error violation => .error (.writeRejected violation.message)

theorem send_eq (c : Container) (batch : List Mutation) : c.send batch = c.written batch := by
  rw [send, written]
  split
  · next hempty =>
    -- nothing need not be sent, and would be accepted
    obtain rfl : batch = [] := List.isEmpty_iff.1 hempty
    rfl
  · rw [Store.writeBatch]
    cases c.store.limits.checkBatch batch <;> rfl

/-- **A write is one batch of the store.** -/
theorem writeAll_eq (hslot : c.batchOpen = false) (mutations : Except MapError (List Mutation)) :
    c.writeAll mutations = mutations.bind c.written := by
  obtain ⟨store, schema, batchOpen⟩ := c
  obtain rfl : batchOpen = false := hslot
  cases mutations with
  | error e => rfl
  | ok batch =>
      show (send ⟨store, schema, true⟩ batch).bind (fun sent => .ok sent.freeSlot) =
        written ⟨store, schema, false⟩ batch
      rw [send_eq, written, written]
      cases store.limits.checkBatch batch <;> rfl

theorem written_eq_ok {batch : List Mutation} (h : c.written batch = .ok next) :
    c.store.limits.Allows batch ∧ next = { c with store := batch.foldl Store.apply c.store } := by
  rw [written] at h
  split at h
  · next hcheck => exact ⟨(Limits.checkBatch_eq_ok_iff batch).1 hcheck, (Except.ok.inj h).symm⟩
  · cases h

theorem collect_eq (s : Schema) (b : Batch) (items : List BatchItem) :
    b.collect s items =
      (items.map fun item => (item.mutation s).map fun _ => (),
        ⟨b.mutations ++ items.filterMap fun item => (item.mutation s).toOption⟩) := by
  induction items generalizing b with
  | nil => simp [Batch.collect]
  | cons item items ih =>
      have hadd : b.add s item = (item.mutation s).map b.push := by cases item <;> rfl
      rw [Batch.collect, hadd, List.map_cons, List.filterMap_cons]
      cases hitem : item.mutation s with
      | error e => simp [Except.map, Except.toOption, ih]
      | ok m => simp [Except.map, Except.toOption, ih, Batch.push]

theorem submit_eq (c : Container) (b : Batch) :
    c.submit b = c.freeSlot.keep ((c.freeSlot.written b.mutations).map ((), ·)) := by
  rw [submit, send_eq]
  cases c.freeSlot.written b.mutations <;> rfl

/-- A whole batch, written or not. -/
theorem wholeBatch_eq (hslot : c.batchOpen = false) (items : List BatchItem) (sent : Bool) :
    c.wholeBatch items sent =
      let batch := items.filterMap fun item => (item.mutation c.schema).toOption
      let answers := items.map fun item => (item.mutation c.schema).map fun _ => ()
      (c.keep (if sent then (c.written batch).map ((), ·) else .ok ((), c))).map
        (.batched answers) fun next => next := by
  obtain ⟨store, schema, batchOpen⟩ := c
  obtain rfl : batchOpen = false := hslot
  have hopened : openBatch ⟨store, schema, false⟩ (base ⟨store, schema, false⟩) =
      .ok ⟨store, schema, true⟩ := rfl
  rw [wholeBatch, hopened]
  simp only [collect_eq]
  cases sent with
  | false => rfl
  | true =>
      simp only [if_true, submit_eq, Batch.empty, List.nil_append]
      rfl

/-! ### Calls of the map itself -/

theorem putWithoutGet_base (c : Container) (key value : Value) :
    c.putWithoutGet c.base key value =
      c.writeAll ((c.schema.putMutation key value).map fun m => [m]) := rfl

theorem put_base (c : Container) (key value : Value) :
    c.put c.base key value = (c.base.get c.store key).bind fun previous =>
      (c.writeAll ((c.schema.putMutation key value).map fun m => [m])).map (previous, ·) := by
  show (c.base.get c.store key).bind _ = _
  cases c.base.get c.store key with
  | error e => rfl
  | ok previous =>
      show (c.putWithoutGet c.base key value).bind _ = _
      rw [putWithoutGet_base]
      cases c.writeAll ((c.schema.putMutation key value).map fun m => [m]) <;> rfl

theorem remove_base (c : Container) (key : Value) :
    c.remove c.base key = (c.base.get c.store key).bind fun previous =>
      if previous.isSome then
        (c.writeAll ((c.schema.removeMutation key).map fun m => [m])).map (previous, ·)
      else .ok (previous, c) := by
  show (c.base.get c.store key).bind _ = _
  cases c.base.get c.store key with
  | error e => rfl
  | ok previous =>
      cases previous with
      | none => rfl
      | some value =>
          show (c.writeAll _).bind _ = _
          cases c.writeAll ((c.schema.removeMutation key).map fun m => [m]) <;> rfl

/-- The mutations of pairs, each changed first. -/
def mutationsOf (s : Schema) (change : Value × Value → Value × Value)
    (pairs : List (Value × Value)) : Except MapError (List Mutation) :=
  pairs.mapM fun pair => s.putMutation (change pair).1 (change pair).2

theorem importAll_base (c : Container) (change : Value × Value → Value × Value)
    (pairs : List (Value × Value)) :
    c.importAll c.base change pairs = (c.writeAll (mutationsOf c.schema change pairs)).map
      ((Checksum.ofPairs pairs).packed, ·) := by
  show (c.writeAll (mutationsOf c.schema change pairs)).bind _ = _
  cases c.writeAll (mutationsOf c.schema change pairs) <;> rfl

theorem putAll_base (c : Container) (pairs : List (Value × Value)) :
    c.putAll c.base pairs = c.writeAll (mutationsOf c.schema id pairs) := by
  show (c.importAll c.base id pairs).bind _ = _
  rw [importAll_base]
  cases c.writeAll (mutationsOf c.schema id pairs) <;> rfl

/-- The removals of what a scan of a map returns. -/
def removalsOf (found : Except MapError (List (Except MapError Entry))) :
    Except MapError (List Mutation) :=
  found.bind fun items => items.mapM fun item => item.map fun e => .delete e.key

theorem clear_base (c : Container) :
    c.clear c.base = c.writeAll (removalsOf (c.base.scan c.store none .latest)) := rfl

/-! ### What calls do to the store -/

/-- Every mutation of the batch removes a key, or was made of one of the pairs. -/
def MadeOf (s : Schema) (pairs : List (Value × Value)) (batch : List Mutation) : Prop :=
  ∀ key value, .put key value ∈ batch →
    ∃ pair ∈ pairs, s.putMutation pair.1 pair.2 = .ok (.put key value)

/-- A container is left as it is, or one batch made of pairs is written to its store. -/
def Writes (c : Container) (pairs : List (Value × Value)) (next : Container) : Prop :=
  next = c ∨ ∃ batch, c.store.limits.Allows batch ∧ MadeOf c.schema pairs batch ∧
    next = { c with store := batch.foldl Store.apply c.store }

variable {s : Schema} {pairs : List (Value × Value)} {batch : List Mutation}
  {mutations : Except MapError (List Mutation)}

theorem madeOf_put {key value : Value} (hmem : (key, value) ∈ pairs)
    (h : ((s.putMutation key value).map fun m => [m]) = .ok batch) : MadeOf s pairs batch := by
  cases hm : s.putMutation key value with
  | error e => simp [hm, Except.map] at h
  | ok m =>
      obtain rfl : [m] = batch := by simpa [hm, Except.map] using h
      intro k v hput
      obtain rfl := List.mem_singleton.1 hput
      exact ⟨(key, value), hmem, hm⟩

theorem madeOf_remove {key : Value}
    (h : ((s.removeMutation key).map fun m => [m]) = .ok batch) : MadeOf s pairs batch := by
  rw [Schema.removeMutation] at h
  cases hkey : s.encodeKey key with
  | error e => simp [hkey, Except.map] at h
  | ok bytes =>
      obtain rfl : [.delete bytes] = batch := by simpa [hkey, Except.map] using h
      intro k v hput
      cases List.mem_singleton.1 hput

/-- What a list of results holds was made of the members of another. -/
theorem exists_of_mapM_eq_ok {α β ε : Type} {f : α → Except ε β} {xs : List α} {ys : List β}
    (h : xs.mapM f = .ok ys) : ∀ y ∈ ys, ∃ x ∈ xs, f x = .ok y := by
  induction xs generalizing ys with
  | nil =>
      obtain rfl : [] = ys := Except.ok.inj h
      simp
  | cons x xs ih =>
      rw [List.mapM_cons] at h
      obtain ⟨y, hy, htail⟩ := bind_eq_ok.1 h
      obtain ⟨rest, hrest, hall⟩ := bind_eq_ok.1 htail
      obtain rfl := Except.ok.inj hall
      rw [List.forall_mem_cons]
      refine ⟨⟨x, List.mem_cons_self .., hy⟩, fun z hz => ?_⟩
      obtain ⟨w, hw, hwz⟩ := ih hrest z hz
      exact ⟨w, List.mem_cons_of_mem x hw, hwz⟩

/-- What succeeds for all members is what it makes of each. -/
theorem filterMap_of_mapM {α β ε : Type} {f : α → Except ε β} {xs : List α} {ys : List β}
    (h : xs.mapM f = .ok ys) : xs.filterMap (fun x => (f x).toOption) = ys := by
  induction xs generalizing ys with
  | nil => exact Except.ok.inj h
  | cons x xs ih =>
      rw [List.mapM_cons] at h
      obtain ⟨y, hy, h⟩ := bind_eq_ok.1 h
      obtain ⟨rest, hrest, h⟩ := bind_eq_ok.1 h
      rw [List.filterMap_cons, hy, ih hrest, ← Except.ok.inj h]
      rfl

theorem madeOf_mutationsOf {change : Value × Value → Value × Value}
    (h : mutationsOf s change pairs = .ok batch) : MadeOf s (pairs.map change) batch := by
  intro key value hput
  obtain ⟨pair, hpair, hm⟩ := exists_of_mapM_eq_ok h _ hput
  exact ⟨change pair, List.mem_map_of_mem hpair, hm⟩

theorem madeOf_removalsOf {found : Except MapError (List (Except MapError Entry))}
    (h : removalsOf found = .ok batch) : MadeOf s pairs batch := by
  obtain ⟨items, -, h⟩ := bind_eq_ok.1 h
  intro key value hput
  obtain ⟨item, -, hitem⟩ := exists_of_mapM_eq_ok h _ hput
  cases item <;> cases hitem

theorem madeOf_items {items : List BatchItem} {sent : Bool} :
    MadeOf s (MapCall.batch items sent).pairs
      (items.filterMap fun item => (item.mutation s).toOption) := by
  intro key value hput
  obtain ⟨item, hitem, hm⟩ := List.mem_filterMap.1 hput
  cases item with
  | put k v =>
      refine ⟨(k, v), List.mem_filterMap.2 ⟨.put k v, hitem, rfl⟩, ?_⟩
      show s.putMutation k v = _
      cases hput : s.putMutation k v with
      | error e => simp [BatchItem.mutation, hput, Except.toOption] at hm
      | ok m => simpa [BatchItem.mutation, hput, Except.toOption] using hm
  | remove k =>
      simp only [BatchItem.mutation, Schema.removeMutation] at hm
      cases hkey : s.encodeKey k <;> simp [hkey, Except.map, Except.toOption] at hm

theorem writes_of_written (h : c.written batch = .ok next) (hmade : MadeOf c.schema pairs batch) :
    c.Writes pairs next := by
  obtain ⟨hallows, rfl⟩ := written_eq_ok h
  exact Or.inr ⟨batch, hallows, hmade, rfl⟩

/-- The container that is kept after a write of mutations made of pairs. -/
theorem writes_keep {α : Type} (hslot : c.batchOpen = false) (answer : α)
    (hmade : ∀ batch, mutations = .ok batch → MadeOf c.schema pairs batch) :
    c.Writes pairs (c.keep ((c.writeAll mutations).map (answer, ·))).2 := by
  rw [writeAll_eq hslot]
  cases mutations with
  | error e => exact Or.inl rfl
  | ok batch =>
      show c.Writes pairs (c.keep ((c.written batch).map (answer, ·))).2
      cases hwritten : c.written batch with
      | error e => exact Or.inl rfl
      | ok next => exact writes_of_written hwritten (hmade batch rfl)

/-- **A call leaves the container as it is or writes one batch**, made of the pairs that it was
given. -/
theorem writes_call (hslot : c.batchOpen = false) (call : MapCall) :
    c.Writes call.pairs (c.call call).2 := by
  cases call with
  | put key value =>
      show c.Writes _ (c.keep (c.put c.base key value)).2
      rw [put_base]
      cases c.base.get c.store key with
      | error e => exact Or.inl rfl
      | ok previous =>
          exact writes_keep hslot previous fun _ => madeOf_put (List.mem_singleton_self _)
  | putWithoutGet key value =>
      exact writes_keep hslot () fun _ => madeOf_put (List.mem_singleton_self _)
  | remove key =>
      show c.Writes _ (c.keep (c.remove c.base key)).2
      rw [remove_base]
      cases c.base.get c.store key with
      | error e => exact Or.inl rfl
      | ok previous =>
          cases previous with
          | none => exact Or.inl rfl
          | some value => exact writes_keep hslot (some value) fun _ => madeOf_remove
  | putAll pairs =>
      show c.Writes pairs (c.keep ((c.putAll c.base pairs).map ((), ·))).2
      rw [putAll_base]
      refine writes_keep hslot () fun batch hbatch => ?_
      have hmade : MadeOf c.schema (pairs.map id) batch := madeOf_mutationsOf hbatch
      rwa [List.map_id] at hmade
  | importAll change pairs =>
      show c.Writes (pairs.map change) (c.keep (c.importAll c.base change pairs)).2
      rw [importAll_base]
      exact writes_keep hslot _ fun _ => madeOf_mutationsOf
  | clear =>
      show c.Writes _ (c.keep ((c.clear c.base).map ((), ·))).2
      rw [clear_base]
      exact writes_keep hslot () fun _ => madeOf_removalsOf
  | batch items sent =>
      show c.Writes _ (c.wholeBatch items sent).2
      rw [wholeBatch_eq hslot]
      cases sent with
      | false => exact Or.inl rfl
      | true =>
          let batch := items.filterMap fun item => (item.mutation c.schema).toOption
          show c.Writes _ (c.keep ((c.written batch).map ((), ·))).2
          cases hwritten : c.written batch with
          | error e => exact Or.inl rfl
          | ok next => exact writes_of_written hwritten madeOf_items

/-! ### Whole runs -/

/-- **What holds of a map after any calls.**  Its store is sound, has the limits that it began with
and can run every operator on every partition, and no batch is left open. -/
structure Ready (digest : Bytes → Bytes) (order : FieldOrder) (limits : Limits) (schema : Schema)
    (c : Container) : Prop where
  sound : c.store.Sound
  limits : c.store.limits = limits
  registry : c.store.registry = .builtin digest order
  installed : ∀ p ∈ c.store.partitions, ∀ id ∈ (Registry.builtin digest order).ids, p.runs id = true
  schema : c.schema = schema
  slot : c.batchOpen = false

variable {digest : Bytes → Bytes} {order : FieldOrder} {limits : Limits}

theorem Ready.written (h : c.Ready digest order limits s) (batch : List Mutation) :
    Ready digest order limits s { c with store := batch.foldl Store.apply c.store } := by
  refine ⟨h.sound.foldl_apply batch, (Store.limits_foldl_apply batch).trans h.limits,
    (Store.registry_foldl_apply batch).trans h.registry, fun p hp id hid => ?_, h.schema, h.slot⟩
  obtain ⟨q, hq, heq⟩ := Store.runs_foldl_apply batch p hp
  rw [heq]
  exact h.installed q hq id hid

theorem Ready.writes (h : c.Ready digest order limits s) (hwrites : c.Writes pairs next) :
    next.Ready digest order limits s := by
  rcases hwrites with rfl | ⟨batch, -, -, rfl⟩
  · exact h
  · exact h.written batch

theorem Ready.call (h : c.Ready digest order limits s) (call : MapCall) :
    (c.call call).2.Ready digest order limits s := h.writes (writes_call h.slot call)

/-- **After any calls a map is ready**, and what every written batch keeps, the calls keep. -/
theorem Ready.run {P : Store → Prop} {calls : List MapCall} (h : c.Ready digest order limits s)
    (hP : P c.store)
    (hbatch : ∀ (store : Store) (batch : List Mutation), store.Sound → P store →
      limits.Allows batch → MadeOf s (calls.flatMap MapCall.pairs) batch →
      P (batch.foldl Store.apply store)) :
    (c.run calls).2.Ready digest order limits s ∧ P (c.run calls).2.store := by
  induction calls generalizing c with
  | nil => exact ⟨h, hP⟩
  | cons call calls ih =>
      refine ih (h.call call) ?_ fun store batch hsound hP hallows hmade => ?_
      · show P (c.call call).2.store
        rcases writes_call h.slot call with hsame | ⟨batch, hallows, hmade, hnext⟩
        · rwa [hsame]
        · rw [hnext]
          refine hbatch c.store batch h.sound hP (h.limits ▸ hallows) fun key value hput => ?_
          obtain ⟨pair, hpair, hm⟩ := hmade key value hput
          exact ⟨pair, List.mem_flatMap.2 ⟨call, List.mem_cons_self .., hpair⟩, h.schema ▸ hm⟩
      · refine hbatch store batch hsound hP hallows fun key value hput => ?_
        obtain ⟨pair, hpair, hm⟩ := hmade key value hput
        exact ⟨pair, List.mem_append_right _ hpair, hm⟩

/-- A map that was just opened over an empty store. -/
theorem ready_openMap {layout : StoreLayout} {settings : Settings}
    (h : openMap (Store.ofLayout layout (.builtin digest order)) settings
      (.builtin digest order) = .ok c) :
    c.Ready digest order layout.limits c.schema ∧ c.schema.registry = .builtin digest order ∧
      c.store.toMap = VersionedMap.empty settings.retention := by
  rw [openMap] at h
  cases hschema : Schema.ofSettings settings (.builtin digest order) with
  | error e => simp [hschema, Except.map] at h
  | ok schema =>
      obtain rfl := Except.ok.inj (hschema ▸ h)
      have hregistry : schema.registry = .builtin digest order := by
        obtain ⟨-, -, hcodecs⟩ := bind_eq_ok.1 hschema
        obtain ⟨keyCodec, -, hvalue⟩ := bind_eq_ok.1 hcodecs
        obtain ⟨valueCodec, -, hmade⟩ := bind_eq_ok.1 hvalue
        rw [← Except.ok.inj hmade]
      have hempty := Store.Sound.ofLayout layout (.builtin digest order)
      refine ⟨⟨hempty.setRetention _, rfl, rfl, ?_, rfl, rfl⟩, hregistry, ?_⟩
      · intro p hp id hid
        obtain ⟨q, hq, rfl⟩ := List.mem_map.1 hp
        obtain ⟨span, -, rfl⟩ := List.mem_map.1 hq
        simpa [Partition.runs] using hid
      · rw [Store.toMap_setRetention _ layout.limits, Store.toMap_ofLayout]
        simp only [VersionedMap.call, VersionedMap.empty]
        cases settings.retention <;> simp [VersionedMap.cut]

end Container

end Strata
