/-
**A store is one map from keys to versions.**

The map knows nothing of partitions or of rows: it holds the versions of every key, the newest
first, how many of them are kept, and one clock.  Looking up the rows of a sound store gives such a
map, and every call of the store is the same call of the map.  So after any calls a scan returns
what the map holds: the keys of the range in ascending order, each with its versions.

* `VersionedMap`, `StoreCall`, `VersionedMap.call` — the map and what is asked of it;
* `Limits.Allows`, `Limits.checkBatch_eq_ok_iff` — which batches are accepted;
* `Store.toMap`, `Store.toMap_apply`, `Store.toMap_call` — a store as a map;
* `VersionedMap.All.run`, `Store.forall_entries_run` — what is held was written;
* `Store.scan_run` — **whole runs**.
-/

import Mathlib.Logic.Function.Basic
import Strata.Proofs.Store.Scan

set_option relaxedAutoImplicit false
set_option autoImplicit false

namespace Strata

/-! ### Limits -/

namespace Limits

variable {limits : Limits}

/-- The sizes of a mutation are within the limits. -/
def AllowsMutation (limits : Limits) (m : Mutation) : Prop :=
  m.key.length ≤ limits.maxKeyBytes ∧
    match m with
    | .put _ value => value.length ≤ limits.maxValueBytes
    | .delete _ => True

/-- The number of mutations and the sizes of each are within the limits. -/
def Allows (limits : Limits) (batch : List Mutation) : Prop :=
  batch.length ≤ limits.maxBatchMutations ∧ ∀ m ∈ batch, limits.AllowsMutation m

theorem checkMutation_eq_ok_iff (m : Mutation) :
    limits.checkMutation m = .ok () ↔ limits.AllowsMutation m := by
  unfold checkMutation AllowsMutation
  cases m with
  | put key value =>
      split
      · next h => simp [Nat.not_le.2 h]
      · next h =>
        simp only [Nat.not_lt.1 h, true_and]
        split
        · next hvalue => simp [Nat.not_le.2 hvalue]
        · next hvalue => simp [Nat.not_lt.1 hvalue]
  | delete key =>
      split
      · next h => simp [Nat.not_le.2 h]
      · next h => simpa using h

theorem checkEach_eq_ok_iff (batch : List Mutation) :
    limits.checkEach batch = .ok () ↔ ∀ m ∈ batch, limits.AllowsMutation m := by
  induction batch with
  | nil => simp [checkEach]
  | cons m batch ih =>
      rw [List.forall_mem_cons, ← checkMutation_eq_ok_iff, ← ih, checkEach]
      split <;> simp_all

/-- **A batch is accepted exactly when it breaks no limit.** -/
theorem checkBatch_eq_ok_iff (batch : List Mutation) :
    limits.checkBatch batch = .ok () ↔ limits.Allows batch := by
  rw [Allows, ← checkEach_eq_ok_iff, checkBatch]
  split
  · next h => simp [Nat.not_le.2 h]
  · next h => simp [Nat.not_lt.1 h]

instance (batch : List Mutation) : Decidable (limits.Allows batch) :=
  decidable_of_iff _ (checkBatch_eq_ok_iff batch)

end Limits

/-! ### The map -/

/-- What may be asked of a store that changes it. -/
inductive StoreCall where
  | writeBatch (batch : List Mutation)
  | setRetention (retention : Option Nat)
  /-- Takes an operator from a partition. -/
  | uninstall (index : Nat) (id : String)
  /-- Gives an operator back to a partition. -/
  | reinstall (index : Nat) (id : String)

/-- The versions of every key, the newest first. -/
structure VersionedMap where
  versions : Bytes → List Version
  retention : Option Nat
  clock : Nat

namespace VersionedMap

/-- No versions. -/
def empty (retention : Option Nat) : VersionedMap := ⟨fun _ => [], retention, 0⟩

/-- The newest versions, as many as are kept, but not fewer than one. -/
def cut : Option Nat → List Version → List Version
  | none, versions => versions
  | some retention, versions => versions.take (max 1 retention)

/-- Applies one mutation. -/
def apply (map : VersionedMap) : Mutation → VersionedMap
  | .put key value =>
    let versions := ⟨value, map.clock + 1⟩ :: map.versions key
    { map with
      versions := Function.update map.versions key (cut map.retention versions)
      clock := map.clock + 1 }
  | .delete key => { map with versions := Function.update map.versions key [] }

/-- Makes a call: a batch that breaks a limit changes nothing. -/
def call (limits : Limits) (map : VersionedMap) : StoreCall → VersionedMap
  | .writeBatch batch => if limits.Allows batch then batch.foldl apply map else map
  | .setRetention retention =>
    { map with versions := fun key => cut retention (map.versions key), retention := retention }
  | .uninstall _ _ | .reinstall _ _ => map

/-- Makes calls, one after the other. -/
def run (limits : Limits) (map : VersionedMap) (calls : List StoreCall) : VersionedMap :=
  calls.foldl (call limits) map

/-- What is returned of a key: all of its versions, or the newest. -/
def entries (map : VersionedMap) (mode : ScanMode) (key : Bytes) : List Entry :=
  let returned := match mode with
    | .latest => (map.versions key).take 1
    | .allVersions => map.versions key
  returned.map fun v => ⟨key, v.value, v.timestamp⟩

/-- The keys of a range that have versions, in strictly ascending order. -/
structure Lists (map : VersionedMap) (range : KeyRange) (keys : List Bytes) : Prop where
  ascending : keys.Pairwise (· < ·)
  mem_iff : ∀ key, key ∈ keys ↔ range.contains key = true ∧ map.versions key ≠ []

end VersionedMap

namespace VersionChain

theorem toList_retain_eq_cut (chain : VersionChain) (retention : Option Nat) :
    (chain.retain retention).toList = VersionedMap.cut retention chain.toList := by
  cases retention with
  | none => rfl
  | some n => exact toList_retain chain n

end VersionChain

/-! ### What was written -/

namespace VersionedMap

variable {limits : Limits} {P : Bytes → Bytes → Prop} {map : VersionedMap}

/-- Every version of every key is of a kind. -/
def All (P : Bytes → Bytes → Prop) (map : VersionedMap) : Prop :=
  ∀ key, ∀ v ∈ map.versions key, P key v.value

theorem mem_of_mem_cut {retention : Option Nat} {versions : List Version} {v : Version}
    (h : v ∈ cut retention versions) : v ∈ versions := by
  cases retention with
  | none => exact h
  | some n => exact List.mem_of_mem_take h

theorem All.apply (h : map.All P) {m : Mutation}
    (hm : ∀ key value, m = .put key value → P key value) : (map.apply m).All P := by
  intro k v hv
  cases m with
  | put key value =>
      simp only [VersionedMap.apply, Function.update_apply] at hv
      split at hv
      · next heq =>
        subst heq
        rcases List.mem_cons.1 (mem_of_mem_cut hv) with rfl | hv
        · exact hm k value rfl
        · exact h k v hv
      · exact h k v hv
  | delete key =>
      simp only [VersionedMap.apply, Function.update_apply] at hv
      split at hv
      · cases hv
      · exact h k v hv

theorem All.foldl_apply (h : map.All P) {batch : List Mutation}
    (hbatch : ∀ key value, .put key value ∈ batch → P key value) :
    (batch.foldl VersionedMap.apply map).All P := by
  induction batch generalizing map with
  | nil => exact h
  | cons m batch ih =>
      refine ih (h.apply fun key value hm => hbatch key value (by simp [hm])) ?_
      exact fun key value hmem => hbatch key value (List.mem_cons_of_mem _ hmem)

/-- **Whatever is written in accepted batches is all there ever is.** -/
theorem All.run (h : map.All P) {calls : List StoreCall}
    (hcalls : ∀ batch, .writeBatch batch ∈ calls → limits.Allows batch →
      ∀ key value, .put key value ∈ batch → P key value) :
    (map.run limits calls).All P := by
  induction calls generalizing map with
  | nil => exact h
  | cons c calls ih =>
      refine ih ?_ fun batch hbatch => hcalls batch (List.mem_cons_of_mem _ hbatch)
      cases c with
      | writeBatch batch =>
          rw [call]
          split
          · next hallows => exact h.foldl_apply (hcalls batch (by simp) hallows)
          · exact h
      | setRetention retention => exact fun key v hv => h key v (mem_of_mem_cut hv)
      | _ => exact h

end VersionedMap

/-! ### A store as a map -/

namespace Store

variable {store : Store}

/-- The map of the rows of a store. -/
def toMap (store : Store) : VersionedMap where
  versions key := (store.contents.lookup key).elim [] VersionChain.toList
  retention := store.retention
  clock := store.clock

/-- Makes a call of a store; a batch that is refused leaves it as it is. -/
def call (store : Store) : StoreCall → Store
  | .writeBatch batch =>
    match store.writeBatch batch with
    | .ok written => written
    | .error _ => store
  | .setRetention retention => store.setRetention retention
  | .uninstall index id => store.uninstall index id
  | .reinstall index id => store.reinstall index id

/-- Makes calls, one after the other. -/
def run (store : Store) (calls : List StoreCall) : Store := calls.foldl call store

theorem toMap_ofLayout (layout : StoreLayout) (registry : Registry) :
    (ofLayout layout registry).toMap = VersionedMap.empty layout.retention := by
  have hnone : (ofLayout layout registry).contents = [] :=
    List.flatMap_eq_nil_iff.2 fun p hp => by
      obtain ⟨span, -, rfl⟩ := List.mem_map.1 hp
      rfl
  simp only [toMap, hnone, List.lookup_nil]
  rfl

/-- **A mutation of a store is the mutation of its map.** -/
theorem toMap_apply (h : store.Sound) (m : Mutation) :
    (store.apply m).toMap = store.toMap.apply m := by
  cases m with
  | put key value =>
      simp only [apply, toMap, VersionedMap.apply]
      congr 1
      funext k
      show ((store.modifyRows key _).contents.lookup k).elim [] VersionChain.toList = _
      rw [contents_modifyRows h (Rows.changesOnly_update ..), Rows.lookup_update h.sorted_contents,
        Function.update_apply]
      split
      · cases store.contents.lookup key with
        | none =>
            -- a single version is kept by any cut
            have hone := VersionChain.toList_retain_eq_cut (.single ⟨value, store.clock + 1⟩)
              store.retention
            rwa [(VersionChain.Sound.single ..).retained] at hone
        | some chain => exact VersionChain.toList_retain_eq_cut ⟨_, _⟩ _
      · rfl
  | delete key =>
      simp only [apply, toMap, VersionedMap.apply]
      congr 1
      funext k
      rw [contents_modifyRows h (Rows.changesOnly_erase key), Rows.lookup_erase h.sorted_contents,
        Function.update_apply]
      split <;> rfl

theorem toMap_foldl_apply (h : store.Sound) (batch : List Mutation) :
    (batch.foldl apply store).toMap = batch.foldl VersionedMap.apply store.toMap := by
  induction batch generalizing store with
  | nil => rfl
  | cons m batch ih => rw [List.foldl_cons, List.foldl_cons, ih (h.apply m), toMap_apply h]

theorem toMap_setRetention (retention : Option Nat) (limits : Limits) :
    (store.setRetention retention).toMap = store.toMap.call limits (.setRetention retention) := by
  simp only [toMap, VersionedMap.call]
  congr 1
  funext key
  rw [contents_setRetention, Rows.lookup_retain]
  cases store.contents.lookup key with
  | none => cases retention <;> simp [VersionedMap.cut]
  | some chain => exact chain.toList_retain_eq_cut retention

/-- A batch is written exactly when the limits allow it. -/
theorem isOk_writeBatch (batch : List Mutation) :
    (store.writeBatch batch).isOk = true ↔ store.limits.Allows batch := by
  rw [← Limits.checkBatch_eq_ok_iff, writeBatch]
  split
  · next violation h => simp [h, Except.isOk, Except.toBool]
  · next h => simp [h, Except.isOk, Except.toBool]

theorem call_writeBatch (batch : List Mutation) :
    store.call (.writeBatch batch) =
      if store.limits.Allows batch then batch.foldl apply store else store := by
  rw [call, writeBatch]
  cases hcheck : store.limits.checkBatch batch with
  | error violation =>
      rw [if_neg fun hallows => ?_]
      rw [(Limits.checkBatch_eq_ok_iff batch).2 hallows] at hcheck
      cases hcheck
  | ok => rw [if_pos ((Limits.checkBatch_eq_ok_iff batch).1 hcheck)]

theorem limits_foldl_apply (batch : List Mutation) :
    (batch.foldl apply store).limits = store.limits := by
  induction batch generalizing store with
  | nil => rfl
  | cons m batch ih => rw [List.foldl_cons, ih]; cases m <;> rfl

theorem toMap_held (h : store.Sound) {partitions : List Partition}
    (hheld : partitions.map Partition.held = store.partitions.map Partition.held) :
    Sound { store with partitions := partitions } ∧ store.limits = store.limits ∧
      toMap { store with partitions := partitions } = store.toMap := by
  obtain ⟨hsound, hcontents⟩ := h.of_held hheld
  exact ⟨hsound, rfl, by simp only [toMap, hcontents]⟩

/-- **A call of a store is the call of its map**, and keeps the store sound. -/
theorem toMap_call (h : store.Sound) (c : StoreCall) :
    (store.call c).Sound ∧ (store.call c).limits = store.limits ∧
      (store.call c).toMap = store.toMap.call store.limits c := by
  cases c with
  | writeBatch batch =>
      rw [call_writeBatch, VersionedMap.call]
      split
      · exact ⟨h.foldl_apply batch, limits_foldl_apply batch, toMap_foldl_apply h batch⟩
      · exact ⟨h, rfl, rfl⟩
  | setRetention retention =>
      exact ⟨h.setRetention retention, rfl, toMap_setRetention retention store.limits⟩
  | uninstall index id => exact toMap_held h (map_modify_held fun p => held_withoutOperator p id)
  | reinstall index id => exact toMap_held h (map_modify_held fun p => held_withOperator p id)

theorem toMap_run (h : store.Sound) (calls : List StoreCall) :
    (store.run calls).Sound ∧ (store.run calls).limits = store.limits ∧
      (store.run calls).toMap = store.toMap.run store.limits calls := by
  induction calls generalizing store with
  | nil => exact ⟨h, rfl, rfl⟩
  | cons c calls ih =>
      obtain ⟨hsound, hlimits, hmap⟩ := toMap_call h c
      obtain ⟨hrest, hlimits', hmap'⟩ := ih hsound
      rw [hlimits, hmap] at hmap'
      exact ⟨hrest, hlimits'.trans hlimits, hmap'⟩

/-- What a store is after any calls. -/
theorem sound_run (layout : StoreLayout) (registry : Registry) (calls : List StoreCall) :
    ((ofLayout layout registry).run calls).Sound :=
  (toMap_run (Sound.ofLayout layout registry) calls).1

/-- A store that begins empty is the map that begins empty and is asked the same. -/
theorem toMap_run_ofLayout (layout : StoreLayout) (registry : Registry) (calls : List StoreCall) :
    ((ofLayout layout registry).run calls).toMap =
      (VersionedMap.empty layout.retention).run layout.limits calls := by
  rw [(toMap_run (Sound.ofLayout layout registry) calls).2.2, toMap_ofLayout]
  rfl

theorem registry_foldl_apply (batch : List Mutation) :
    (batch.foldl apply store).registry = store.registry := by
  induction batch generalizing store with
  | nil => rfl
  | cons m batch ih => rw [List.foldl_cons, ih]; cases m <;> rfl

/-- Whatever is asked of a store, it builds operators by the registry it began with. -/
theorem registry_run (store : Store) (calls : List StoreCall) :
    (store.run calls).registry = store.registry := by
  induction calls generalizing store with
  | nil => rfl
  | cons c calls ih =>
      rw [run, List.foldl_cons]
      refine (ih (store.call c)).trans ?_
      cases c with
      | writeBatch batch =>
          rw [call_writeBatch]
          split
          · exact registry_foldl_apply batch
          · rfl
      | _ => rfl

/-! ### Scans -/

/-- The rows of a range are the keys that the map lists, with what it returns of each. -/
theorem entries_toMap (h : store.Sound) (range : KeyRange) (mode : ScanMode) :
    ∃ keys, store.toMap.Lists range keys ∧
      store.contents.entries range mode = keys.flatMap (store.toMap.entries mode) := by
  -- the keys are those of the rows in range
  let rows := store.contents.filter fun row => range.contains row.1
  have hlookup : ∀ row ∈ rows, store.contents.lookup row.1 = some row.2 := fun row hrow =>
    (Rows.lookup_eq_some_iff h.sorted_contents).2 (List.mem_filter.1 hrow).1
  refine ⟨rows.map Prod.fst, ⟨?_, fun key => ?_⟩, ?_⟩
  · exact List.pairwise_map.2 (h.sorted_contents.filter _)
  · constructor
    · intro hkey
      obtain ⟨row, hrow, rfl⟩ := List.mem_map.1 hkey
      refine ⟨(List.mem_filter.1 hrow).2, ?_⟩
      simp [toMap, hlookup row hrow, VersionChain.toList]
    · rintro ⟨hin, hversions⟩
      cases hchain : store.contents.lookup key with
      | none => simp [toMap, hchain] at hversions
      | some chain =>
          have hmem := (Rows.lookup_eq_some_iff h.sorted_contents).1 hchain
          exact List.mem_map.2 ⟨(key, chain), List.mem_filter.2 ⟨hmem, hin⟩, rfl⟩
  · rw [Rows.entries, List.flatMap_map]
    refine List.flatMap_congr ?_
    intro row hrow
    cases mode <;> simp [VersionChain.entries, VersionedMap.entries, toMap, hlookup row hrow,
      VersionChain.toList]

/-- What holds of all versions holds of all entries. -/
theorem forall_entries_of_all (h : store.Sound) {P : Bytes → Bytes → Prop}
    (hall : store.toMap.All P) (range : KeyRange) (mode : ScanMode) :
    ∀ e ∈ store.contents.entries range mode, P e.key e.value := by
  intro e he
  obtain ⟨keys, -, hentries⟩ := entries_toMap h range mode
  rw [hentries] at he
  obtain ⟨key, -, he⟩ := List.mem_flatMap.1 he
  cases mode with
  | latest =>
      obtain ⟨v, hv, rfl⟩ := List.mem_map.1 he
      exact hall key v (List.mem_of_mem_take hv)
  | allVersions =>
      obtain ⟨v, hv, rfl⟩ := List.mem_map.1 he
      exact hall key v hv

/-- **After any calls a store holds nothing but what was written in accepted batches.** -/
theorem forall_entries_run (layout : StoreLayout) (registry : Registry) (calls : List StoreCall)
    {P : Bytes → Bytes → Prop}
    (hcalls : ∀ batch, .writeBatch batch ∈ calls → layout.limits.Allows batch →
      ∀ key value, .put key value ∈ batch → P key value) (range : KeyRange) (mode : ScanMode) :
    ∀ e ∈ ((ofLayout layout registry).run calls).contents.entries range mode, P e.key e.value := by
  obtain ⟨hsound, -, hmap⟩ := toMap_run (Sound.ofLayout layout registry) calls
  refine forall_entries_of_all hsound ?_ range mode
  rw [hmap, toMap_ofLayout]
  exact VersionedMap.All.run (fun _ _ hv => by cases hv) hcalls

/-- After any calls no key is longer than the limits allow. -/
theorem length_key_run (layout : StoreLayout) (registry : Registry) (calls : List StoreCall)
    (range : KeyRange) (mode : ScanMode) :
    ∀ e ∈ ((ofLayout layout registry).run calls).contents.entries range mode,
      e.key.length ≤ layout.limits.maxKeyBytes :=
  forall_entries_run layout registry calls
    (P := fun key _ => key.length ≤ layout.limits.maxKeyBytes)
    (fun _ _ hallows _ _ hput => (hallows.2 _ hput).1) range mode

/-- **After any calls a scan returns what one map holds.**  The store and the map begin empty and
are asked the same.  The scan returns, drained or pulled item by item, the keys of the range in
ascending order, each with what the map returns of it; no partition is asked for that does not
exist, and none is searched between crossed bounds.  Every key lies in the span of one partition,
and rows keep to the span of theirs. -/
theorem scan_run (layout : StoreLayout) (registry : Registry) (calls : List StoreCall)
    (range : KeyRange) (mode : ScanMode) :
    let store := (ofLayout layout registry).run calls
    let map := (VersionedMap.empty layout.retention).run layout.limits calls
    let stream := store.openScan (Scanner.ofRange range mode)
    (∃ keys, map.Lists range keys ∧
      store.scan (Scanner.ofRange range mode) = (keys.flatMap (map.entries mode)).map .ok ∧
      ∀ count, (stream.take store count).1 =
        ((keys.flatMap (map.entries mode)).map .ok).take count) ∧
    (∀ index ∈ stream.pending, index < store.partitions.length ∧ range.Searchable) ∧
    (store.retention = map.retention ∧ store.clock = map.clock) ∧
    (∀ batch, (store.writeBatch batch).isOk = true ↔ layout.limits.Allows batch) ∧
    Tiles none store.bounds ∧
    (∀ key, ∃! index : Nat, ∃ span, store.bounds[index]? = some span ∧
      (KeyRange.halfOpen span.1 span.2).contains key = true) ∧
    (∀ p ∈ store.partitions, p.rows.Sorted ∧ ∀ row ∈ p.rows,
      (KeyRange.halfOpen p.low p.high).contains row.1 = true ∧
        row.2.toList ≠ [] ∧ row.2.Sound store.retention store.clock) := by
  intro store map stream
  have hsound : store.Sound := sound_run layout registry calls
  have hlimits : store.limits = layout.limits := (toMap_run (Sound.ofLayout _ _) calls).2.1
  have hmap : store.toMap = map := toMap_run_ofLayout layout registry calls
  obtain ⟨keys, hkeys, hentries⟩ := entries_toMap hsound range mode
  have hscan := hsound.scan_ofRange range mode
  rw [hentries] at hscan
  rw [hmap] at hkeys hscan
  refine ⟨⟨keys, hkeys, hscan, ?_⟩, fun index => pending_openScan, ?_, ?_, hsound.tiles,
    fun key => hsound.tiles.existsUnique (by simp), ?_⟩
  · intro count
    rw [Stream.take_eq_take_drain, ← hscan]
    rfl
  · exact ⟨congrArg VersionedMap.retention hmap, congrArg VersionedMap.clock hmap⟩
  · intro batch
    rw [isOk_writeBatch, hlimits]
  · intro p hp
    refine ⟨hsound.placed.sorted p hp, fun row hrow => ⟨hsound.placed.inSpan p hp row hrow, ?_, ?_⟩⟩
    · exact List.cons_ne_nil _ _
    · exact hsound.chains row (List.mem_flatMap.2 ⟨p, hp, hrow⟩)

end Store

end Strata
