/-
**A map is a finite map.**

A map over an empty store is asked anything, one call after another, while a finite map is asked the
same.  The store of the map represents the finite map before and after every call: looking up its
rows gives the versions of every key.  So every answer is the one that the finite map predicts,
faults among them, and all reads afterwards report that finite map, in whatever partitions the
store keeps its rows and by whatever way a read gets to them.

* `Container.Represents` — the relation of the two, which `Container.Represents.call` keeps;
* `Container.Represents.run` — **whole runs**;
* `Container.Reports`, `Container.Represents.reports` — nine reads of one finite map;
* `Container.run_finiteMap` — **answers, reads, and what single calls do**.
-/

import Strata.Proofs.Map.Aggregates
import Strata.Proofs.Map.FiniteMap

set_option relaxedAutoImplicit false
set_option autoImplicit false

namespace Strata

theorem FiniteMap.toVersionedMap_foldl (map : FiniteMap) (batch : List Mutation) :
    (batch.foldl FiniteMap.apply map).toVersionedMap =
      batch.foldl VersionedMap.apply map.toVersionedMap := by
  induction batch generalizing map with
  | nil => rfl
  | cons m batch ih =>
      rw [List.foldl_cons, List.foldl_cons, ih]
      cases m <;> rfl

namespace Container

variable {digest : Bytes → Bytes} {order : FieldOrder} {limits : Limits} {s : Schema}
  {c : Container} {map : FiniteMap}

/-- The store of a map holds the versions of the keys of a finite map. -/
structure Represents (digest : Bytes → Bytes) (order : FieldOrder) (limits : Limits) (s : Schema)
    (c : Container) (map : FiniteMap) : Prop where
  ready : c.Ready digest order limits s
  same : c.store.toMap = map.toVersionedMap

/-! ### Steps -/

theorem Represents.listed (h : c.Represents digest order limits s map) :
    c.store.toMap.Lists KeyRange.full map.keys := h.same ▸ map.listed

/-- What is found of a key is the newest value that the finite map has of it. -/
theorem Represents.get (h : c.Represents digest order limits s map) (key : Value) :
    c.base.get c.store key = map.newest s key := by
  rw [base, View.get_base h.ready.sound, h.same, h.ready.schema]
  rfl

/-- **A batch is written to both or to none.** -/
theorem Represents.written {α : Type} (h : c.Represents digest order limits s map)
    (batch : List Mutation) (answer : α) :
    let kept := c.keep ((c.written batch).map (answer, ·))
    let predicted := map.write limits (.ok batch)
    kept.1 = predicted.1.map (fun _ => answer) ∧
      kept.2.Represents digest order limits s predicted.2 := by
  rw [Container.written, h.ready.limits, FiniteMap.write]
  cases limits.checkBatch batch with
  | error violation => exact ⟨rfl, h⟩
  | ok =>
      refine ⟨rfl, h.ready.written batch, ?_⟩
      show (batch.foldl Store.apply c.store).toMap = _
      rw [Store.toMap_foldl_apply h.ready.sound, h.same, map.toVersionedMap_foldl]

theorem Represents.writeAll {α : Type} (h : c.Represents digest order limits s map)
    (mutations : Except MapError (List Mutation)) (answer : α) :
    let kept := c.keep ((c.writeAll mutations).map (answer, ·))
    let predicted := map.write limits mutations
    kept.1 = predicted.1.map (fun _ => answer) ∧
      kept.2.Represents digest order limits s predicted.2 := by
  rw [writeAll_eq h.ready.slot]
  cases mutations with
  | error e => exact ⟨rfl, h⟩
  | ok batch => exact h.written batch answer

/-- Clearing a map removes the keys that the finite map lists. -/
theorem Represents.removals (h : c.Represents digest order limits s map) :
    removalsOf (c.base.scan c.store none .latest) = .ok (map.keys.map .delete) := by
  rw [base, View.scan_base h.ready.sound, ← View.map_key_listed h.ready.sound h.listed]
  show ((c.store.contents.entries KeyRange.full .latest).map Except.ok).mapM _ = _
  rw [List.mapM_map, List.map_map]
  exact List.mapM_pure

/-- Removing the keys that it lists clears the finite map. -/
theorem Represents.cleared
    (h : c.Represents digest order limits s ((map.keys.map .delete).foldl FiniteMap.apply map)) :
    c.Represents digest order limits s map.cleared := by
  refine ⟨h.ready, h.same.trans ?_⟩
  rw [map.toVersionedMap_foldl, VersionedMap.versions_foldl_delete, FiniteMap.cleared]
  congr 1
  funext key
  by_cases hkey : key ∈ map.keys
  · rw [if_pos hkey]
  · -- a key that is not listed has no versions
    rw [if_neg hkey]
    by_contra hversions
    exact hkey ((map.listed.mem_iff key).2 ⟨rfl, hversions⟩)

theorem map_unit {ε : Type} (outcome : Except ε Unit) : (outcome.map fun _ => ()) = outcome := by
  cases outcome <;> rfl

/-- **A call is answered as predicted**, and the finite map is still represented. -/
theorem Represents.call (h : c.Represents digest order limits s map) (call : MapCall) :
    (c.call call).1 = (map.call s limits call).1 ∧
      (c.call call).2.Represents digest order limits s (map.call s limits call).2 := by
  have hschema : c.schema = s := h.ready.schema
  cases call with
  | put key value =>
      simp only [Container.call, FiniteMap.call]
      rw [put_base, h.get, hschema]
      cases map.newest s key with
      | error e => exact ⟨rfl, h⟩
      | ok previous =>
          obtain ⟨hanswer, hnext⟩ := h.writeAll ((s.putMutation key value).map ([·])) previous
          exact ⟨congrArg MapAnswer.previous hanswer, hnext⟩
  | putWithoutGet key value =>
      simp only [Container.call, FiniteMap.call]
      rw [putWithoutGet_base, hschema]
      obtain ⟨hanswer, hnext⟩ := h.writeAll ((s.putMutation key value).map ([·])) ()
      exact ⟨congrArg MapAnswer.done (hanswer.trans (map_unit _)), hnext⟩
  | remove key =>
      simp only [Container.call, FiniteMap.call]
      rw [remove_base, h.get, hschema]
      cases map.newest s key with
      | error e => exact ⟨rfl, h⟩
      | ok previous =>
          cases previous with
          | none => exact ⟨rfl, h⟩
          | some value =>
              obtain ⟨hanswer, hnext⟩ :=
                h.writeAll ((s.removeMutation key).map ([·])) (some value)
              exact ⟨congrArg MapAnswer.previous hanswer, hnext⟩
  | putAll pairs =>
      simp only [Container.call, FiniteMap.call]
      rw [putAll_base, hschema]
      obtain ⟨hanswer, hnext⟩ := h.writeAll (mutationsOf s id pairs) ()
      exact ⟨congrArg MapAnswer.done (hanswer.trans (map_unit _)), hnext⟩
  | importAll change pairs =>
      simp only [Container.call, FiniteMap.call]
      rw [importAll_base, hschema]
      obtain ⟨hanswer, hnext⟩ := h.writeAll (mutationsOf s change pairs)
        (Checksum.ofPairs pairs).packed
      exact ⟨congrArg MapAnswer.imported hanswer, hnext⟩
  | clear =>
      simp only [Container.call, FiniteMap.call]
      rw [clear_base, h.removals]
      have hwritten := h.writeAll (.ok (map.keys.map .delete)) ()
      rw [FiniteMap.write] at hwritten
      cases hcheck : limits.checkBatch (map.keys.map .delete) with
      | error violation =>
          simp only [hcheck] at hwritten
          exact ⟨congrArg MapAnswer.done hwritten.1, hwritten.2⟩
      | ok =>
          simp only [hcheck] at hwritten
          exact ⟨congrArg MapAnswer.done hwritten.1, hwritten.2.cleared⟩
  | batch items sent =>
      simp only [Container.call, FiniteMap.call]
      rw [wholeBatch_eq h.ready.slot, hschema]
      cases sent with
      | false => exact ⟨rfl, h⟩
      | true =>
          obtain ⟨hanswer, hnext⟩ :=
            h.written (items.filterMap fun item => (item.mutation s).toOption) ()
          exact ⟨congrArg (MapAnswer.batched _) (hanswer.trans (map_unit _)), hnext⟩

/-- **Calls are answered as predicted**, one after the other. -/
theorem Represents.run (h : c.Represents digest order limits s map) (calls : List MapCall) :
    (c.run calls).1 = (map.run s limits calls).1 ∧
      (c.run calls).2.Represents digest order limits s (map.run s limits calls).2 := by
  induction calls generalizing c map with
  | nil => exact ⟨rfl, h⟩
  | cons call calls ih =>
      obtain ⟨hanswer, hnext⟩ := h.call call
      obtain ⟨hanswers, hlast⟩ := ih hnext
      exact ⟨congrArg₂ List.cons hanswer hanswers, hlast⟩

/-! ### Reads -/

/-- All reads of a map report one finite map. -/
structure Reports (c : Container) (s : Schema) (map : FiniteMap) : Prop where
  get : ∀ key, c.base.get c.store key = map.newest s key
  getAll : ∀ key, c.base.getAll c.store key = map.all s key
  containsKey : ∀ key, c.base.containsKey c.store key =
    (s.encodeKey key).map fun bytes => decide (bytes ∈ map.keys)
  firstKey : c.base.firstKey c.store = s.decodeEnd map.keys.head?
  lastKey : c.base.lastKey c.store = s.decodeEnd map.keys.getLast?
  entries : c.base.entries c.store = .ok (map.shown s .latest)
  multiEntries : c.base.multiEntries c.store = .ok (map.shown s .allVersions)
  size : c.base.size c.store = .ok (UInt64.ofNat map.keys.length)
  isEmpty : c.base.isEmpty c.store = .ok map.keys.isEmpty

/-- **All reads report the finite map** that is represented. -/
theorem Represents.reports (h : c.Represents digest order limits s map)
    (hregistry : s.registry = .builtin digest order) : c.Reports s map := by
  have hsound := h.ready.sound
  have hbase : c.base = View.base s := congrArg View.base h.ready.schema
  have hshown : ∀ mode, (c.store.contents.entries KeyRange.full mode).map s.decodeEntry =
      map.shown s mode := by
    intro mode
    rw [View.entries_listed hsound h.listed, h.same]
    rfl
  refine ⟨h.get, fun key => ?_, fun key => ?_, ?_, ?_, ?_, ?_, ?_, ?_⟩
  · rw [hbase, View.getAll_base hsound, h.same]
    rfl
  · rw [hbase, View.containsKey_base hsound, h.same]
    refine congrArg (Except.map · (s.encodeKey key)) (funext fun bytes => ?_)
    rw [Bool.eq_iff_iff, decide_eq_true_eq, map.listed.mem_iff]
    cases map.versions bytes <;> simp
  · rw [hbase, View.firstKey_base hsound h.listed]
  · rw [hbase, View.lastKey_base hsound h.listed]
  · rw [hbase, View.entries_base hsound, hshown]
  · rw [hbase, View.multiEntries_base hsound, hshown]
  · rw [hbase, View.size_base hsound hregistry h.ready.registry h.ready.installed,
      ← View.map_key_listed hsound h.listed, List.length_map]
  · rw [hbase, View.isEmpty_base hsound h.listed]

/-! ### Whole runs -/

/-- **A map is a finite map.**  A map with any codecs and any number of versions was opened over an
empty store that is cut anywhere, and was asked anything; the finite map begins without keys and was
asked the same.  Then every answer is the one that the finite map predicts, and all reads report the
finite map that was reached.  There a call that fails changes nothing; a put answers with the newest
value and writes one version, in front of those of its key; a removal answers with the newest value
and drops its key; and clearing leaves no key. -/
theorem run_finiteMap (digest : Bytes → Bytes) (order : FieldOrder) (layout : StoreLayout)
    (settings : Settings) (calls : List MapCall) (c : Container)
    (hopen : openMap (Store.ofLayout layout (.builtin digest order)) settings
      (.builtin digest order) = .ok c) :
    let predicted := (FiniteMap.empty settings.retention).run c.schema layout.limits calls
    let map := predicted.2
    let call := map.call c.schema layout.limits
    (c.run calls).1 = predicted.1 ∧
    (c.run calls).2.Reports c.schema map ∧
    map.retention = settings.retention ∧
    (∀ asked, (call asked).1.isOk = false → (call asked).2 = map) ∧
    (∀ key value previous, (call (.put key value)).1 = .previous (.ok previous) →
      map.newest c.schema key = .ok previous ∧
        FiniteMap.Puts c.schema map (call (.put key value)).2 key value) ∧
    (∀ key value, (call (.putWithoutGet key value)).1 = .done (.ok ()) →
      FiniteMap.Puts c.schema map (call (.putWithoutGet key value)).2 key value) ∧
    (∀ key previous, (call (.remove key)).1 = .previous (.ok previous) →
      map.newest c.schema key = .ok previous ∧
        FiniteMap.Drops c.schema map (call (.remove key)).2 key) ∧
    ((call .clear).1 = .done (.ok ()) →
      (call .clear).2.keys = [] ∧ ∀ bytes, (call .clear).2.versions bytes = []) := by
  intro predicted map call
  obtain ⟨hready, hregistry, hempty⟩ := ready_openMap hopen
  have hbegin :
      c.Represents digest order layout.limits c.schema (FiniteMap.empty settings.retention) :=
    ⟨hready, hempty⟩
  obtain ⟨hanswers, hreached⟩ := hbegin.run calls
  refine ⟨hanswers, hreached.reports hregistry, FiniteMap.retention_run calls, ?_, ?_, ?_, ?_, ?_⟩
  · exact fun asked => FiniteMap.call_of_failed asked
  · exact fun key value previous => FiniteMap.call_put
  · exact fun key value h => FiniteMap.write_put (MapAnswer.done.inj h)
  · exact fun key previous => FiniteMap.call_remove
  · intro hclear
    rw [show (call .clear).2 = map.cleared from FiniteMap.call_clear hclear]
    exact ⟨rfl, fun _ => rfl⟩

/-- Two versions of a key in a batch, read, removed and cleared, over two partitions. -/
theorem run_finiteMap_batch :
    let settings : Settings := ⟨"long", "long", some 2, 1000⟩
    let layout : StoreLayout := ⟨[Codec.LongWord.write 2], Limits.standard, some 1⟩
    let calls : List MapCall := [.batch [.put (.int 1) (.int 10), .put .null .null,
      .put (.int 1) (.int 11), .put (.int 2) (.int 20)] true, .put (.int 1) (.int 12),
      .remove (.int 2), .putWithoutGet (.int 3) (.bytes [])]
    ∃ c, openMap (Store.ofLayout layout (.builtin id)) settings (.builtin id) = .ok c ∧
      (c.run calls).1 = [.batched [.ok (), .error (.decode (.unsupportedValue "long" "Null")),
          .ok (), .ok ()] (.ok ()),
        .previous (.ok (some (.int 11))), .previous (.ok (some (.int 20))),
        .done (.error (.decode (.unsupportedValue "long" "Bytes")))] ∧
      (c.run calls).2.base.getAll (c.run calls).2.store (.int 1) = .ok [.int 12, .int 11] ∧
      (c.run calls).2.base.size (c.run calls).2.store = .ok 1 := by
  intro settings layout calls
  have hschema : Schema.ofSettings settings (.builtin id) =
      .ok ⟨.long, .long, settings, .builtin id⟩ := rfl
  have hopen : openMap (Store.ofLayout layout (.builtin id)) settings (.builtin id) =
      .ok ⟨(Store.ofLayout layout (.builtin id)).setRetention (some 2),
        ⟨.long, .long, settings, .builtin id⟩, false⟩ := by
    rw [openMap, hschema]
    rfl
  obtain ⟨hanswers, hreports, -⟩ := run_finiteMap id .asRead layout settings calls _ hopen
  exact ⟨_, hopen, hanswers.trans rfl, (hreports.getAll (.int 1)).trans rfl,
    hreports.size.trans rfl⟩

end Container

end Strata
