/-
**A missing operator is never passed over.**

A scan that meets a partition without one of its operators stops there with an error, whether or not
the partition holds anything.  An aggregate folds what a scan gives with its own operator on top of
those of the view, up to the first error.  So where a partition that the view meets lacks one of
these operators there is no result, which would be one over the other partitions alone.

* `View.scannerOf_built` — a view compiles to a scanner whose operators were installed;
* `Aggregation.foldItems_of_error` — a fold over an error has no result;
* `View.missing_capability` — **scans stop, and aggregates fail**, where an operator is missing.
-/

import Strata.Proofs.Store.ScanStop
import Strata.Proofs.View.Fallback

set_option relaxedAutoImplicit false
set_option autoImplicit false

namespace Strata

namespace Aggregation

variable {α : Type}

/-- A fold over an error has no result. -/
theorem foldItems_of_error (a : Aggregation α) {items : List (Except MapError Entry)}
    {e : MapError} (h : .error e ∈ items) (total : α) :
    ∃ fault, a.foldItems items total = .error fault := by
  induction items generalizing total with
  | nil => cases h
  | cons item items ih =>
      cases item with
      | error fault => exact ⟨fault, rfl⟩
      | ok entry =>
          have hbehind := (List.mem_cons.1 h).resolve_left nofun
          rw [foldItems]
          cases a.fold total entry.value with
          | error fault => exact ⟨fault, rfl⟩
          | ok total => exact ih hbehind total

end Aggregation

namespace View

variable {α : Type} {v made : View} {store : Store}

/-- A view compiles to a scanner whose operators were installed, one after the other. -/
theorem scannerOf_built {mode : ScanMode} {layers : List Layer} {s : Scanner}
    (h : scannerOf mode layers = .ok (some s)) : s.Built := by
  induction layers generalizing s with
  | nil => cases h
  | cons layer below ih =>
      rw [scannerOf] at h
      cases hkind : layer.kind with
      | base =>
          rw [hkind] at h
          obtain rfl := Option.some.inj (Except.ok.inj h)
          exact .ofRange _ _
      | empty =>
          rw [hkind] at h
          cases h
      | restricted =>
          rw [hkind] at h
          obtain ⟨found, hfound, hsome⟩ := map_eq_ok.1 h
          obtain ⟨inner, rfl, rfl⟩ := Option.map_eq_some_iff.1 hsome.symm
          exact .setRange (ih hfound) _
      | _ =>
          -- an operator is installed on what the layers below compile to
          rw [hkind] at h
          rcases hbelow : scannerOf mode below with e | _ | inner
          · rw [hbelow] at h
            cases h
          · rw [hbelow] at h
            cases h
          · cases hsetting : layer.setting with
            | none =>
                rw [hbelow, hsetting] at h
                exact ih (hbelow.trans h)
            | some setting =>
                rw [hbelow, hsetting] at h
                obtain ⟨installed, hinstalled, hsome⟩ := map_eq_ok.1 h
                obtain rfl := Option.some.inj hsome
                exact .install (ih hbelow) hinstalled

theorem Sound.built_scanner (h : v.Sound) (hempty : v.kind ≠ .empty) (mode : ScanMode) :
    (v.scanner mode).Built := by
  have hcompiles := h.compiles mode
  rw [if_neg hempty] at hcompiles
  exact scannerOf_built hcompiles

/-- **An aggregate has no result where an operator is missing.** -/
theorem Sound.aggregate_of_lacks (hmade : made.Sound) (hempty : made.kind ≠ .empty)
    (a : Aggregation α) (hview : v.aggregateView a.operatorId a.options = .ok made)
    {p : Partition} (hp : p ∈ store.partitions)
    (hmeets : made.top.range.overlapsSpan p.low p.high = true)
    (hlacks : ∃ s ∈ made.settings, p.runs s.id = false) :
    ∃ fault, v.aggregate store a = .error fault := by
  obtain ⟨index, hindex⟩ := List.mem_iff_getElem?.1 hp
  have hbuilt := hmade.built_scanner hempty made.top.mode
  obtain ⟨visited, hvisits, hyields⟩ := store.exists_yields hbuilt.ascending
  have hvisited : (index, p) ∈ visited := (hvisits.mem_iff _).2 ⟨hmade.searchable, hindex, hmeets⟩
  obtain ⟨e, he⟩ := hyields.exists_error ⟨_, hvisited, hlacks⟩
  rw [aggregate, hview]
  show ∃ fault, (made.scan store none made.top.mode).bind _ = .error fault
  rw [hmade.scan_eq hempty]
  have hfault : .error (MapError.ofStoreError e) ∈
      (store.scan (made.scanner made.top.mode)).map ofItem := List.mem_map.2 ⟨_, he, rfl⟩
  exact a.foldItems_of_error hfault a.identity

/-- **Scans stop, and aggregates fail, where an operator is missing.**  The store is any, and its
partitions may have lost any of their operators.  A scan visits the partitions that its range meets
in their order, among them every partition in whose span a key of the range lies.  Pulled from as
often as one likes it yields all that the operators make of these partitions, up to the first that
lacks an operator or on which one fails; there it yields one error, which names the place of the
partition and of the missing operators the one with the least priority; then it yields nothing.  An
aggregate that can be put on a view that is not empty has an error for its result if any partition
that the view meets lacks its operator or one of the view, whatever the partition holds. -/
theorem missing_capability (store : Store) :
    (∀ scanner : Scanner, scanner.Built →
      ∃ (visited : List (Nat × Partition)) (items : List ScanItem),
        store.Visits scanner visited ∧
        (∀ index p key, store.partitions[index]? = some p →
          scanner.range.contains key = true → p.span.contains key = true →
            (index, p) ∈ visited) ∧
        store.Yields scanner visited items ∧
        ∀ count, (store.openScan scanner).pull store count = items[count]?) ∧
    ∀ (α : Type) (a : Aggregation α) (schema : Schema) (steps : List Step) (v made : View),
      (View.base schema).derived steps = .ok v → v.kind ≠ .empty →
      v.aggregateView a.operatorId a.options = .ok made →
      ∃ setting : Setting, setting.id = a.operatorId ∧ made.settings = v.settings ++ [setting] ∧
        ∀ p ∈ store.partitions, v.top.range.overlapsSpan p.low p.high = true →
          (∃ s ∈ made.settings, p.runs s.id = false) →
            ∃ fault, v.aggregate store a = .error fault := by
  constructor
  · intro scanner hbuilt
    obtain ⟨visited, hvisits, hyields⟩ := store.exists_yields hbuilt.ascending
    exact ⟨visited, _, hvisits, fun _ _ _ hp => hvisits.mem_of_contains hp, hyields,
      fun count => Stream.pull_eq store count _⟩
  · intro α a schema steps v made hsteps hempty hview
    obtain ⟨hmade, -, -, ⟨hnone, -⟩ | ⟨setting, operator, hsetting, htop⟩⟩ :=
      ((Sound.base schema).derived hsteps).aggregateView_cases hview
    · exact absurd hnone hempty
    · refine ⟨setting, hsetting, htop.settings, fun p hp hmeets hlacks => ?_⟩
      rw [← htop.range] at hmeets
      exact hmade.aggregate_of_lacks htop.above a hview hp hmeets hlacks

/-- The second of two partitions is empty and cannot count, and the map has no size. -/
theorem missing_capability_count :
    let two := Codec.LongWord.write 2
    let store := (Store.ofLayout ⟨[two], Limits.standard, some 1⟩ (.builtin id)).run
      [.writeBatch [.put (Codec.LongWord.write 1) two], .uninstall 1 "count"]
    let v := View.base ⟨.long, .long, Settings.standard, .builtin id⟩
    let scanner : Scanner := ⟨KeyRange.full, .latest, [⟨"count", firstPriority, []⟩]⟩
    scanner.Built ∧
    (∃ visited items, store.Yields scanner visited items ∧
      ∀ count, (store.openScan scanner).pull store count = items[count]?) ∧
    (store.partitions.map fun p => p.rows.length) = [1, 0] ∧
    ∃ fault, v.size store = .error fault := by
  intro two store v scanner
  have hbuilt : scanner.Built := by
    have hinstall : (Scanner.ofRange KeyRange.full .latest).install ⟨"count", firstPriority, []⟩ =
        .ok scanner := rfl
    exact .install (.ofRange _ _) hinstall
  have hstore : store =
      ⟨[⟨none, some two, [(Codec.LongWord.write 1, ⟨⟨two, 1⟩, []⟩)], (Registry.builtin id).ids⟩,
        ⟨some two, none, [], (Registry.builtin id).ids.filter fun name => name ≠ "count"⟩],
        .builtin id, Limits.standard, some 1, 1⟩ := rfl
  obtain ⟨hscan, haggregate⟩ := missing_capability store
  obtain ⟨visited, items, -, -, hyields, hpull⟩ := hscan scanner hbuilt
  let setting : Setting :=
    ⟨"count", firstPriority, [("key_codec", "long"), ("value_input_codec", "long")]⟩
  obtain ⟨made, hmade, hsettings⟩ : ∃ made, v.aggregateView "count" [] = .ok made ∧
      made.settings = [setting] := by
    simp only [v, Registry.builtin_eq]
    exact ⟨_, rfl, rfl⟩
  obtain ⟨-, -, -, hfails⟩ := haggregate UInt64 .count _ [] v made rfl nofun hmade
  refine ⟨hbuilt, ⟨visited, items, hyields, hpull⟩, rfl, ?_⟩
  refine hfails ⟨some two, none, [], (Registry.builtin id).ids.filter fun name => name ≠ "count"⟩
    ?_ rfl ⟨setting, ?_, ?_⟩
  · rw [hstore]
    exact List.mem_cons_of_mem _ (List.mem_singleton_self _)
  · rw [hsettings]
    exact List.mem_singleton_self _
  · rw [Registry.builtin_eq]
    decide

end View

end Strata
