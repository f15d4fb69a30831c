/-
**The newest value of every key.**

A batch of puts with keys of their own, none of them in the store, adds its pairs to what the store
holds, whatever the order in which it lists them.  No call moves a split point, so every partition
keeps the pairs whose key lies in its span.

* `Store.newest` — the keys, each with its newest value;
* `Store.newest_puts` — **what puts add**;
* `Store.newest_partition` — what a partition holds of it;
* `Store.runs_foldl_apply`, `Store.bounds_run` — **operators and split points stay**.
-/

import Strata.Proofs.Store.PerSpan
import Strata.Proofs.Store.VersionedMap

set_option relaxedAutoImplicit false
set_option autoImplicit false

namespace Strata

/-- The key and the value of an entry. -/
def Entry.pair (e : Entry) : Bytes × Bytes := (e.key, e.value)

/-- The mutation that writes a pair. -/
def Mutation.ofPair (pair : Bytes × Bytes) : Mutation := .put pair.1 pair.2

namespace Rows

variable {rows : Rows} {key : Bytes} {change : Option VersionChain → VersionChain}

/-- A change of a key that is not there adds one row. -/
theorem perm_update_of_absent (h : ∀ row ∈ rows, row.1 ≠ key) :
    (update key change rows).Perm ((key, change none) :: rows) := by
  induction rows with
  | nil => exact List.Perm.refl _
  | cons row rows ih =>
      rw [List.forall_mem_cons] at h
      rw [update]
      split
      · exact ((ih h.2).cons row).trans (List.Perm.swap _ _ _)
      · rw [if_neg h.1]

/-- The newest values of rows are what a scan for them returns. -/
theorem map_pair_entries (rows : Rows) :
    (rows.entries KeyRange.full .latest).map Entry.pair =
      rows.map fun row => (row.1, row.2.newest.value) := by
  have hall : (rows.filter fun row => KeyRange.full.contains row.1) = rows :=
    List.filter_eq_self.2 fun row _ => rfl
  rw [entries, hall, List.map_flatMap]
  exact List.flatMap_pure_eq_map _ rows

end Rows

namespace Store

variable {store : Store}

/-- The keys, each with its newest value. -/
def newest (store : Store) : List (Bytes × Bytes) :=
  (store.contents.entries KeyRange.full .latest).map Entry.pair

/-! ### Puts -/

theorem newest_put (h : store.Sound) {pair : Bytes × Bytes}
    (habsent : pair.1 ∉ store.newest.map Prod.fst) :
    (store.apply (.ofPair pair)).newest.Perm (pair :: store.newest) := by
  rw [newest, Rows.map_pair_entries, List.map_map] at habsent
  have hrows : ∀ row ∈ store.contents, row.1 ≠ pair.1 := by
    intro row hrow heq
    exact habsent (List.mem_map.2 ⟨row, hrow, heq⟩)
  rw [newest, newest, Rows.map_pair_entries, Rows.map_pair_entries]
  show ((store.modifyRows pair.1 _).contents.map _).Perm _
  rw [contents_modifyRows h (Rows.changesOnly_update ..)]
  exact (Rows.perm_update_of_absent hrows).map _

/-- **Puts of new keys add their pairs.** -/
theorem newest_puts (h : store.Sound) {written : List (Bytes × Bytes)}
    (hnodup : (written.map Prod.fst ++ store.newest.map Prod.fst).Nodup) :
    ((written.map Mutation.ofPair).foldl Store.apply store).newest.Perm
      (written ++ store.newest) := by
  induction written generalizing store with
  | nil => exact List.Perm.refl _
  | cons pair written ih =>
      obtain ⟨hfirst, hrest⟩ := List.nodup_cons.1 hnodup
      have hpair : (store.apply (.ofPair pair)).newest.Perm (pair :: store.newest) :=
        newest_put h fun hmem => hfirst (List.mem_append_right _ hmem)
      have hnames := (hpair.map Prod.fst).append_left (written.map Prod.fst)
      -- the keys that follow are neither in the store nor the one just written
      have hnext : (written.map Prod.fst ++
          (store.apply (.ofPair pair)).newest.map Prod.fst).Nodup := by
        refine hnames.nodup_iff.2 (List.perm_middle.nodup_iff.2 ?_)
        exact List.nodup_cons.2 ⟨hfirst, hrest⟩
      calc ((written.map Mutation.ofPair).foldl Store.apply
            (store.apply (.ofPair pair))).newest.Perm
              (written ++ (store.apply (.ofPair pair)).newest) := ih (h.apply _) hnext
        _ |>.Perm (written ++ pair :: store.newest) := hpair.append_left written
        _ |>.Perm (pair :: written ++ store.newest) := List.perm_middle

/-! ### Partitions -/

/-- A partition holds the pairs whose key lies in its span. -/
theorem newest_partition (h : store.Sound) {p : Partition} (hp : p ∈ store.partitions) :
    (p.rows.entries KeyRange.full .latest).map Entry.pair =
      store.newest.filter fun pair => p.span.contains pair.1 := by
  have hspan : ∀ q ∈ store.partitions, ∀ e ∈ q.rows.entries KeyRange.full .latest,
      q.span.contains e.key = true :=
    fun q hq e he => contains_of_mem_entries (h.placed.inSpan q hq) he
  have hpart := filter_flatMap_span h.tiles.pairwise_apart hspan hp
  rw [← entries_contents] at hpart
  rw [newest, List.filter_map, ← hpart]
  rfl

/-! ### Operators and split points -/

/-- What is written to a store changes no operators of partitions. -/
theorem runs_modifyFor {key : Bytes} {change : Rows → Rows} {partitions : List Partition} :
    ∀ q ∈ modifyFor key (fun p => { p with rows := change p.rows }) partitions,
      ∃ p ∈ partitions, q.runs = p.runs := by
  induction partitions with
  | nil => simp [modifyFor]
  | cons p rest ih =>
      intro q hq
      cases rest with
      | nil =>
          obtain rfl := List.mem_singleton.1 hq
          exact ⟨p, List.mem_singleton_self p, rfl⟩
      | cons next rest =>
          rw [modifyFor] at hq
          · split at hq
            · rcases List.mem_cons.1 hq with rfl | hq
              · exact ⟨p, List.mem_cons_self .., rfl⟩
              · exact ⟨q, List.mem_cons_of_mem p hq, rfl⟩
            · rcases List.mem_cons.1 hq with rfl | hq
              · exact ⟨q, List.mem_cons_self .., rfl⟩
              · obtain ⟨r, hr, heq⟩ := ih q hq
                exact ⟨r, List.mem_cons_of_mem p hr, heq⟩
          · simp

theorem runs_foldl_apply (batch : List Mutation) :
    ∀ q ∈ (batch.foldl Store.apply store).partitions, ∃ p ∈ store.partitions, q.runs = p.runs := by
  induction batch generalizing store with
  | nil => exact fun q hq => ⟨q, hq, rfl⟩
  | cons m batch ih =>
      intro q hq
      obtain ⟨p, hp, hqp⟩ := ih q hq
      have hmodified : ∃ r ∈ store.partitions, p.runs = r.runs := by
        cases m <;> exact runs_modifyFor p hp
      obtain ⟨r, hr, hpr⟩ := hmodified
      exact ⟨r, hr, hqp.trans hpr⟩

theorem bounds_apply (h : store.Sound) (m : Mutation) : (store.apply m).bounds = store.bounds := by
  cases m with
  | put key value => exact (placed_modifyRows h (Rows.changesOnly_update ..)).2
  | delete key => exact (placed_modifyRows h (Rows.changesOnly_erase ..)).2

theorem bounds_foldl_apply (h : store.Sound) (batch : List Mutation) :
    (batch.foldl Store.apply store).bounds = store.bounds := by
  induction batch generalizing store with
  | nil => rfl
  | cons m batch ih => exact (ih (h.apply m)).trans (bounds_apply h m)

theorem bounds_call (h : store.Sound) (c : StoreCall) : (store.call c).bounds = store.bounds := by
  have hheld : ∀ {partitions : List Partition},
      partitions.map Partition.held = store.partitions.map Partition.held →
        spansOf partitions = store.bounds := by
    intro partitions heq
    have := congrArg (List.map Prod.fst) heq
    simpa [List.map_map, Function.comp_def, Partition.held, spansOf, bounds] using this
  cases c with
  | writeBatch batch =>
      rw [call_writeBatch]
      split
      · exact bounds_foldl_apply h batch
      · rfl
  | setRetention retention => simp [call, setRetention, bounds, Function.comp_def]
  | uninstall index id => exact hheld (map_modify_held fun p => held_withoutOperator p id)
  | reinstall index id => exact hheld (map_modify_held fun p => held_withOperator p id)

/-- **No call moves a split point.** -/
theorem bounds_run (h : store.Sound) (calls : List StoreCall) :
    (store.run calls).bounds = store.bounds := by
  induction calls generalizing store with
  | nil => rfl
  | cons c calls ih => exact (ih (toMap_call h c).1).trans (bounds_call h c)

theorem bounds_ofLayout (layout : StoreLayout) (registry : Registry) :
    (ofLayout layout registry).bounds = spans none (sortKeys layout.splits) := by
  rw [bounds, ofLayout, List.map_map]
  exact List.map_id _

end Store

end Strata
