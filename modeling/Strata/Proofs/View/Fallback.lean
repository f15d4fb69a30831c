/-
**The fold without the help of the partitions is the fold with it.**

An aggregate is folded partition by partition: what its operator leaves of the entries of one is
folded into the result before the next is looked at.  A scan with the operator on top does that
next to the data.  The fallback does it with one scan a span, in the same order, over the same
entries; it also looks at spans that the scan skips, of which a built-in aggregate leaves nothing.
So both are one fold over the partitions, whose steps read nothing but what the partitions hold.

* `Aggregation.share` — what one partition does to the result;
* `View.Sound.aggregate_eq`, `View.Sound.aggregateBySpan_eq` — both ways are folds of shares;
* `View.aggregateWithFallback_eq` — **the fallback returns what nothing missing would return**.
-/

import Strata.Proofs.Operator.Gather
import Strata.Proofs.Store.PartitionScan
import Strata.Proofs.Store.VersionedMap
import Strata.Proofs.View.Derived
import Strata.View.Aggregate

set_option relaxedAutoImplicit false
set_option autoImplicit false

namespace Strata

/-! ### Visits of partitions -/

namespace Store

variable {store : Store} {p : Partition}

/-- A partition without an operator runs the others as before. -/
theorem runs_withoutOperator (p : Partition) {id name : String} (hname : name ≠ id) :
    (p.withoutOperator id).runs name = p.runs name := by
  rw [Bool.eq_iff_iff]
  simp [Partition.runs, Partition.withoutOperator, hname]

/-- Taking an operator from a partition leaves the others. -/
theorem runs_uninstall {index : Nat} {id : String}
    (hp : p ∈ (store.uninstall index id).partitions) :
    ∃ q ∈ store.partitions, ∀ name, name ≠ id → p.runs name = q.runs name := by
  obtain ⟨i, hi⟩ := List.mem_iff_getElem?.1 hp
  rw [uninstall, List.getElem?_modify, Option.map_eq_map, Option.map_eq_some_iff] at hi
  obtain ⟨q, hq, rfl⟩ := hi
  refine ⟨q, List.mem_of_getElem? hq, ?_⟩
  intro name hname
  split
  · exact runs_withoutOperator q hname
  · rfl

/-- Taking an operator from partitions leaves what they hold, and the other operators. -/
theorem run_uninstall (store : Store) (id : String) (missing : List Nat) :
    let lacking := store.run (missing.map fun index => .uninstall index id)
    lacking.partitions.map Partition.held = store.partitions.map Partition.held ∧
      ∀ p ∈ lacking.partitions, ∃ q ∈ store.partitions,
        ∀ name, name ≠ id → p.runs name = q.runs name := by
  induction missing generalizing store with
  | nil => exact ⟨rfl, fun p hp => ⟨p, hp, fun _ _ => rfl⟩⟩
  | cons index missing ih =>
      obtain ⟨hheld, hruns⟩ := ih (store.uninstall index id)
      refine ⟨hheld.trans (map_modify_held fun p => held_withoutOperator p id), ?_⟩
      intro p hp
      obtain ⟨q, hq, hsame⟩ := hruns p hp
      obtain ⟨r, hr, hbefore⟩ := runs_uninstall hq
      exact ⟨r, hr, fun name hname => (hsame name hname).trans (hbefore name hname)⟩

end Store

/-! ### Shares of partitions -/

namespace Aggregation

variable {α : Type} (a : Aggregation α)

theorem foldItems_append (entries : List Entry) (rest : List (Except MapError Entry)) (total : α) :
    a.foldItems (entries.map .ok ++ rest) total =
      (a.foldItems (entries.map .ok) total).bind (a.foldItems rest) := by
  induction entries generalizing total with
  | nil => rfl
  | cons e entries ih =>
      rw [List.map_cons, List.cons_append, foldItems, foldItems]
      cases hfold : a.fold total e.value with
      | error fault => rfl
      | ok total => simp only [ih]

/-- What one partition does to the result: operators run on its entries in range, and what they
leave is folded.  A partition that the range does not meet does nothing. -/
def share (registry : Registry) (scanner : Scanner) (total : α) (p : Partition) :
    Except MapError α :=
  if scanner.range.overlapsSpan p.low p.high then
    ((Store.runOperators registry scanner.settings
      (p.rows.entries scanner.range scanner.mode)).mapError MapError.ofOperatorError).bind
        fun left => a.foldItems (left.map .ok) total
  else .ok total

variable {store : Store} {scanner : Scanner}

/-- The fold of a scan folds what comes of the first partition, and then the rest. -/
theorem foldItems_drainPending (index : Nat) (pending : List Nat) (total : α) :
    a.foldItems ((Stream.drainPending store scanner (index :: pending)).map View.ofItem) total =
      ((Stream.visit store scanner index).mapError MapError.ofStoreError).bind fun left =>
        (a.foldItems (left.map .ok) total).bind
          (a.foldItems ((Stream.drainPending store scanner pending).map View.ofItem)) := by
  rw [Stream.drainPending]
  cases Stream.visit store scanner index with
  | error e => rfl
  | ok left =>
      simp only [List.map_append, View.map_ofItem_ok]
      exact a.foldItems_append left _ total

/-- A partition that can run all operators gives its share. -/
theorem share_eq {p : Partition} (index : Nat)
    (hmeets : scanner.range.overlapsSpan p.low p.high = true)
    (hruns : ∀ s ∈ scanner.settings, p.runs s.id = true) (total : α) :
    a.share store.registry scanner total p =
      ((store.streamPartition index p scanner).mapError MapError.ofStoreError).bind fun left =>
        a.foldItems (left.map .ok) total := by
  rw [share, if_pos hmeets, Store.streamPartition_of_runs index hruns]
  cases Store.runOperators store.registry scanner.settings
    (p.rows.entries scanner.range scanner.mode) <;> rfl

/-- The fold of a scan is the fold of shares, unless a partition lacks an operator. -/
theorem foldItems_meeting (store : Store) (scanner : Scanner) {rest : List Partition} {start : Nat}
    (hrest : ∀ i p, rest[i]? = some p → store.partitions[start + i]? = some p) (total : α) :
    a.foldItems ((Stream.drainPending store scanner
        (Store.meeting scanner.range start rest)).map View.ofItem) total =
        rest.foldlM (a.share store.registry scanner) total ∨
      (∃ p ∈ rest, ∃ s ∈ scanner.settings, p.runs s.id = false) ∧
        ∃ id index, a.foldItems ((Stream.drainPending store scanner
          (Store.meeting scanner.range start rest)).map View.ofItem) total =
            .error (.missingCapability id index) := by
  induction rest generalizing start total with
  | nil => exact Or.inl rfl
  | cons p rest ih =>
      have hp : store.partitions[start]? = some p := hrest 0 p rfl
      have htail : ∀ i q, rest[i]? = some q → store.partitions[start + 1 + i]? = some q := by
        intro i q hq
        rw [Nat.add_assoc, Nat.add_comm 1]
        exact hrest (i + 1) q (by simpa using hq)
      rw [Store.meeting, List.foldlM_cons]
      split
      · next hmeets =>
        rw [foldItems_drainPending, Stream.visit, hp]
        dsimp only
        by_cases hruns : ∀ s ∈ scanner.settings, p.runs s.id = true
        · rw [a.share_eq start hmeets hruns]
          simp only [bind, Except.bind]
          cases (store.streamPartition start p scanner).mapError MapError.ofStoreError with
          | error e => exact Or.inl rfl
          | ok left =>
              dsimp only
              cases a.foldItems (left.map .ok) total with
              | error e => exact Or.inl rfl
              | ok total =>
                  refine (ih htail total).imp_right (And.imp_left ?_)
                  rintro ⟨q, hq, hlacks⟩
                  exact ⟨q, List.mem_cons_of_mem p hq, hlacks⟩
        · have hlacks : ∃ s ∈ scanner.settings, p.runs s.id = false := by simpa using hruns
          obtain ⟨missing, -, hmissing⟩ := Store.streamPartition_of_lacks start hlacks
          rw [hmissing]
          exact Or.inr ⟨⟨p, List.mem_cons_self .., hlacks⟩, missing.id, start, rfl⟩
      · next hmeets =>
        rw [share, if_neg hmeets]
        rcases ih htail total with h | ⟨⟨q, hq, hlacks⟩, h⟩
        · exact Or.inl h
        · exact Or.inr ⟨⟨q, List.mem_cons_of_mem p hq, hlacks⟩, h⟩

/-- What a partition can run has no part in its share. -/
theorem foldlM_share_held {registry : Registry} {partitions others : List Partition}
    (h : partitions.map Partition.held = others.map Partition.held) (total : α) :
    partitions.foldlM (a.share registry scanner) total =
      others.foldlM (a.share registry scanner) total := by
  let ofHeld (held : (Option Bytes × Option Bytes) × Rows) : Partition :=
    ⟨held.1.1, held.1.2, held.2, []⟩
  have hheld : ∀ l : List Partition, l.foldlM (a.share registry scanner) total =
      (l.map Partition.held).foldlM (fun total held => a.share registry scanner total (ofHeld held))
        total := by
    intro l
    rw [List.foldlM_map]
    rfl
  rw [hheld, hheld, h]

end Aggregation

/-! ### Both ways to fold -/

namespace View

variable {α : Type} {v made : View} {store : Store} {setting : Setting} {operator : Operator}

/-- **Next to the data** an aggregate is the fold of shares, unless a partition lacks an
operator. -/
theorem Sound.aggregate_eq_or (hmade : made.Sound) (a : Aggregation α)
    (hview : v.aggregateView a.operatorId a.options = .ok made)
    (htop : v.Topped setting operator made) :
    v.aggregate store a =
        store.partitions.foldlM (a.share store.registry (made.scanner made.top.mode)) a.identity ∨
      (∃ p ∈ store.partitions, ∃ s ∈ v.settings ++ [setting], p.runs s.id = false) ∧
        ∃ id index, v.aggregate store a = .error (.missingCapability id index) := by
  have hscan : v.aggregate store a = a.foldItems ((Stream.drainPending store
      (made.scanner made.top.mode) (Store.meeting (made.scanner made.top.mode).range 0
        store.partitions)).map ofItem) a.identity := by
    have hopen : (made.scanner made.top.mode).range.isEmpty = false := hmade.searchable
    rw [aggregate, hview]
    show (made.scan store none made.top.mode).bind _ = _
    rw [hmade.scan_eq htop.above, Store.scan, Store.openScan, hopen]
    rfl
  have hall : ∀ i p, store.partitions[i]? = some p → store.partitions[0 + i]? = some p := by
    intro i p hp
    rwa [Nat.zero_add]
  have hfold := a.foldItems_meeting store (made.scanner made.top.mode) hall a.identity
  rw [← hscan, htop.scanner] at hfold
  rw [htop.scanner]
  exact hfold

theorem mapM_id_map_ok (entries : List Entry) :
    (entries.map Except.ok : List (Except MapError Entry)).mapM id = .ok entries := by
  induction entries with
  | nil => rfl
  | cons e entries ih =>
      rw [List.map_cons, List.mapM_cons, ih]
      rfl

/-- A scan of the span of a partition returns what the operators make of the partition. -/
theorem Sound.scan_span (h : v.Sound) (hstore : store.Sound) (hempty : v.kind ≠ .empty)
    {p : Partition} (hp : p ∈ store.partitions) (hruns : ∀ s ∈ v.settings, p.runs s.id = true)
    (hmeets : v.top.range.overlapsSpan p.low p.high = true) (mode : ScanMode) :
    v.scan store (some p.span) mode =
      .ok (match Store.runOperators store.registry v.settings
          (p.rows.entries v.top.range mode) with
        | .ok entries => entries.map .ok
        | .error e => [.error (MapError.ofOperatorError e)]) := by
  obtain ⟨clipped, hclipped⟩ := Option.isSome_iff_exists.1 hmeets
  obtain ⟨index, hindex⟩ := List.mem_iff_getElem?.1 hp
  have hscan : store.scan ((v.scanner mode).setRange clipped) = _ :=
    hstore.scan_clipped hindex hclipped
  rw [Store.streamPartition_of_runs index hruns] at hscan
  rw [h.scan_some hempty, Partition.span, hclipped]
  show Except.ok ((store.scan ((v.scanner mode).setRange clipped)).map ofItem) = _
  rw [hscan]
  simp only [View.scanner]
  cases Store.runOperators store.registry v.settings (p.rows.entries v.top.range mode) with
  | error e => rfl
  | ok entries => exact congrArg Except.ok (map_ofItem_ok entries)

/-- What the fallback makes of a span is what all operators make of the partition. -/
theorem Sound.processSpan_eq (h : v.Sound) (hstore : store.Sound) (hempty : v.kind ≠ .empty)
    (hbuild : v.schema.registry.build setting = .ok operator) (hquiet : operator [] = .ok [])
    (hregistry : v.schema.registry = store.registry)
    {p : Partition} (hp : p ∈ store.partitions) (hruns : ∀ s ∈ v.settings, p.runs s.id = true)
    (mode : ScanMode) :
    v.processSpan store setting mode (p.low, p.high) =
      if v.top.range.overlapsSpan p.low p.high then
        (Store.runOperators store.registry (v.settings ++ [setting])
          (p.rows.entries v.top.range mode)).mapError MapError.ofOperatorError
      else .ok [] := by
  rw [processSpan, hbuild]
  show (v.scan store (some p.span) mode).bind _ = _
  split
  · next hmeets =>
    rw [h.scan_span hstore hempty hp hruns hmeets, Store.runOperators_append]
    cases Store.runOperators store.registry v.settings (p.rows.entries v.top.range mode) with
    | error e => rfl
    | ok entries =>
        simp only [Except.bind, mapM_id_map_ok, Store.runOperators, ← hregistry, hbuild]
        show (operator entries).mapError MapError.ofOperatorError = _
        cases operator entries <;> rfl
  · next hmeets =>
    have hnone : v.top.range.intersect p.span = none := by
      simpa [KeyRange.overlapsSpan, Partition.span] using hmeets
    rw [h.scan_some hempty, hnone]
    show (operator []).mapError MapError.ofOperatorError = _
    rw [hquiet]
    rfl

/-- **Without the help of the partitions** an aggregate is the fold of shares. -/
theorem Sound.foldSpans_eq (h : v.Sound) (hstore : store.Sound) (a : Aggregation α)
    (hregistry : v.schema.registry = store.registry) (htop : v.Topped setting operator made)
    (hquiet : operator [] = .ok []) (mode : ScanMode) {partitions : List Partition}
    (hsub : ∀ p ∈ partitions, p ∈ store.partitions ∧ ∀ s ∈ v.settings, p.runs s.id = true)
    (total : α) :
    v.foldSpans store a setting mode (spansOf partitions) total =
      partitions.foldlM (a.share store.registry (made.scanner mode)) total := by
  induction partitions generalizing total with
  | nil => rfl
  | cons p rest ih =>
      rw [List.forall_mem_cons] at hsub
      obtain ⟨⟨hp, hruns⟩, hrest⟩ := hsub
      have hfold : ∀ total, v.foldSpans store a setting mode (spansOf rest) total =
          rest.foldlM (a.share store.registry (made.scanner mode)) total := ih hrest
      rw [List.foldlM_cons, ← funext hfold, Aggregation.share, htop.scanner]
      show (v.processSpan store setting mode (p.low, p.high)).bind (fun left =>
        (a.foldItems (left.map .ok) total).bind
          (v.foldSpans store a setting mode (spansOf rest))) = Except.bind _ _
      rw [h.processSpan_eq hstore htop.below htop.build hquiet hregistry hp hruns]
      -- a span that is met is folded in either way, and one that is not leaves nothing to fold
      split
      · cases (Store.runOperators store.registry (v.settings ++ [setting])
          (p.rows.entries v.top.range mode)).mapError MapError.ofOperatorError <;> rfl
      · rfl

/-- **Without the help of the partitions** an aggregate is the fold of shares. -/
theorem Sound.aggregateBySpan_eq (h : v.Sound) (hstore : store.Sound) (a : Aggregation α)
    (hregistry : v.schema.registry = store.registry)
    (hview : v.aggregateView a.operatorId a.options = .ok made)
    (htop : v.Topped setting operator made) (hquiet : operator [] = .ok [])
    (hruns : ∀ p ∈ store.partitions, ∀ s ∈ v.settings, p.runs s.id = true) :
    v.aggregateBySpan store a =
      store.partitions.foldlM (a.share store.registry (made.scanner made.top.mode)) a.identity := by
  have hnonempty : made.isEmptyView = false := by simp [isEmptyView, htop.above]
  rw [aggregateBySpan, hview]
  simp only [bind, Except.bind, htop.top, hnonempty, Bool.false_eq_true, if_false]
  exact h.foldSpans_eq hstore a hregistry htop hquiet made.top.mode
    (fun p hp => ⟨hp, hruns p hp⟩) a.identity

/-- Of an empty view both ways return what there is without partitions. -/
theorem aggregate_of_empty (hmade : made.Sound) (a : Aggregation α)
    (hview : v.aggregateView a.operatorId a.options = .ok made) (hempty : made.kind = .empty) :
    v.aggregate store a = .ok a.identity := by
  rw [aggregate, hview]
  show (made.scan store none made.top.mode).bind _ = _
  rw [hmade.scan_of_empty hempty]
  rfl

/-- The fallback is right where the local fold is, and the fold next to the data is or says which
operator is missing. -/
theorem aggregateWithFallback_of {a : Aggregation α} {result : Except MapError α}
    (hlocal : v.aggregateBySpan store a = result)
    (hpushed : v.aggregate store a = result ∨
      ∃ id index, v.aggregate store a = .error (.missingCapability id index)) :
    v.aggregateWithFallback store a = result := by
  rw [aggregateWithFallback]
  rcases hpushed with hpushed | ⟨id, index, hpushed⟩
  · rw [hpushed]
    split
    · exact hlocal
    · rfl
  · rw [hpushed]
    exact hlocal

/-- **The fallback on a store that lacks the aggregate** returns what the aggregate returns on one
that holds the same and runs it. -/
theorem Sound.fallback_eq {lacking : Store} (h : v.Sound) (hlacking : lacking.Sound)
    (a : Aggregation α) (hregistry : v.schema.registry = lacking.registry)
    (hsame : lacking.registry = store.registry)
    (hheld : lacking.partitions.map Partition.held = store.partitions.map Partition.held)
    (hquiet : ∀ setting operator, setting.id = a.operatorId →
      v.schema.registry.build setting = .ok operator → operator [] = .ok [])
    (hruns : ∀ p ∈ store.partitions,
      p.runs a.operatorId = true ∧ ∀ s ∈ v.settings, p.runs s.id = true)
    (hown : ∀ p ∈ lacking.partitions, ∀ s ∈ v.settings, p.runs s.id = true) :
    v.aggregateWithFallback lacking a = v.aggregate store a := by
  cases hmade : v.aggregateView a.operatorId a.options with
  | error e =>
      have herror : ∀ store, v.aggregate store a = .error e := by
        intro store
        rw [aggregate, hmade]
        rfl
      refine aggregateWithFallback_of ?_ (Or.inl ?_)
      · rw [herror, aggregateBySpan, hmade]
        rfl
      · rw [herror, herror]
  | ok made =>
      obtain ⟨hsound, -, -, ⟨-, hempty, hsetting⟩ | ⟨setting, operator, hsetting, htop⟩⟩ :=
        h.aggregateView_cases hmade
      · have hidentity : ∀ store, v.aggregate store a = .ok a.identity := fun store =>
          aggregate_of_empty hsound a hmade hempty
        refine aggregateWithFallback_of ?_ (Or.inl ?_)
        · rw [hidentity, aggregateBySpan, hmade]
          simp only [bind, Except.bind, hsetting]
          rfl
        · rw [hidentity, hidentity]
      · -- nothing is missing in the store, so its aggregate is the fold of shares
        have hfull : v.aggregate store a =
            store.partitions.foldlM (a.share store.registry (made.scanner made.top.mode))
              a.identity := by
          refine (Sound.aggregate_eq_or hsound a hmade htop).resolve_right ?_
          rintro ⟨⟨p, hp, s, hs, hlacks⟩, -⟩
          rcases List.mem_append.1 hs with hs | hs
          · simp [(hruns p hp).2 s hs] at hlacks
          · obtain rfl := List.mem_singleton.1 hs
            simp [hsetting, (hruns p hp).1] at hlacks
        have hshares : lacking.partitions.foldlM
            (a.share lacking.registry (made.scanner made.top.mode)) a.identity =
              v.aggregate store a := by
          rw [hfull, hsame]
          exact a.foldlM_share_held hheld a.identity
        refine aggregateWithFallback_of ?_ ?_
        · rw [← hshares]
          exact h.aggregateBySpan_eq hlacking a hregistry hmade htop
            (hquiet setting operator hsetting htop.build) hown
        · rw [← hshares]
          exact (Sound.aggregate_eq_or hsound a hmade htop).imp_right And.right

/-- **The fallback returns what nothing missing would return.**  The view was derived in any way
from the map of a store that has been changed in any way, store and map know the same operators,
and every partition runs the aggregate and all operators of the view, which are others.  Then taking
the aggregate from any partitions changes neither the result nor the fault. -/
theorem aggregateWithFallback_eq {α : Type} (digest : Bytes → Bytes) (order : FieldOrder)
    (layout : StoreLayout) (registry : Registry) (calls : List StoreCall) (schema : Schema)
    (hregistry : schema.registry = registry) (steps : List Step) (v : View)
    (hview : (View.base schema).derived steps = .ok v) (a : Aggregation α)
    (hid : a.operatorId ∈ ["count", "checksum", "stats"])
    (hfind : registry.find? a.operatorId = (Registry.builtin digest order).find? a.operatorId)
    (hown : ∀ s ∈ v.settings, s.id ≠ a.operatorId) (missing : List Nat) :
    let store := (Store.ofLayout layout registry).run calls
    (∀ p ∈ store.partitions, p.runs a.operatorId = true ∧ ∀ s ∈ v.settings, p.runs s.id = true) →
    v.aggregateWithFallback
        (store.run (missing.map fun index => .uninstall index a.operatorId)) a =
      v.aggregate store a := by
  intro store hruns
  have h : v.Sound := (Sound.base schema).derived hview
  have hstore : store.Sound := Store.sound_run layout registry calls
  have hknown : v.schema.registry = registry := (schema_derived hview).symm ▸ hregistry
  have hstoreRegistry : store.registry = registry := Store.registry_run _ calls
  let lacking := store.run (missing.map fun index => .uninstall index a.operatorId)
  have hsame : lacking.registry = store.registry := Store.registry_run _ _
  obtain ⟨hheld, hothers⟩ := Store.run_uninstall store a.operatorId missing
  refine h.fallback_eq (Store.toMap_run hstore _).1 a ?_ hsame hheld ?_ hruns ?_
  · rw [hknown, hsame, hstoreRegistry]
  · intro setting operator hsetting hbuild
    rw [hknown] at hbuild
    rw [← hsetting] at hid hfind
    obtain ⟨value, rfl, -⟩ := Registry.gather_of_build hid hfind hbuild
    exact gather_nil
  · intro p hp s hs
    obtain ⟨q, hq, hname⟩ := hothers p hp
    rw [hname s.id (hown s hs)]
    exact (hruns q hq).2 s hs

/-- Two partitions are counted after one of them has lost the operator. -/
theorem aggregateWithFallback_keyToKey :
    let one := Codec.LongWord.write 1
    let two := Codec.LongWord.write 2
    let store := (Store.ofLayout ⟨[two], Limits.standard, some 1⟩ (.builtin id)).run
      [.writeBatch [.put two one, .put one two]]
    let schema : Schema := ⟨.long, .long, Settings.standard, .builtin id⟩
    ∃ v, (View.base schema).derived [.keyToKey] = .ok v ∧
      v.aggregate (store.run [.uninstall 1 "count"]) .count =
        .error (.missingCapability "count" 1) ∧
      v.aggregateWithFallback (store.run [.uninstall 1 "count"]) .count = .ok 2 := by
  intro one two store schema
  let setting : Setting :=
    ⟨"key_to_key", firstPriority,
      [("key_codec", "long"), ("value_input_codec", "long"), ("value_output_codec", "long")]⟩
  let v : View := (View.base schema).child
    ⟨.transformed, some setting, KeyRange.full, .latest, .typed, .coded .long, firstPriority + 1⟩
  have hview : (View.base schema).derived [.keyToKey] = .ok v := by
    have hone : (View.base schema).keyToKey = .ok v := by
      simp only [schema, v, Registry.builtin_eq]
      rfl
    show (View.base schema).keyToKey.bind _ = _
    rw [hone]
    rfl
  have hstore : store =
      ⟨[⟨none, some two, [(one, ⟨⟨two, 2⟩, []⟩)], (Registry.builtin id).ids⟩,
        ⟨some two, none, [(two, ⟨⟨one, 1⟩, []⟩)], (Registry.builtin id).ids⟩],
        .builtin id, Limits.standard, some 1, 2⟩ := rfl
  have hruns : ∀ p ∈ store.partitions,
      p.runs "count" = true ∧ ∀ s ∈ v.settings, p.runs s.id = true := by
    have hsettings : v.settings = [setting] := rfl
    rw [hstore, hsettings, Registry.builtin_eq]
    decide
  have hown : ∀ s ∈ v.settings, s.id ≠ Aggregation.count.operatorId := by
    have hsettings : v.settings = [setting] := rfl
    rw [hsettings]
    decide
  have heq := aggregateWithFallback_eq id .asRead ⟨[two], Limits.standard, some 1⟩ (.builtin id)
    [.writeBatch [.put two one, .put one two]] schema rfl [.keyToKey] v hview .count (by decide) rfl
    hown [1] hruns
  refine ⟨v, hview, ?_, heq.trans ?_⟩
  · rw [hstore]
    simp only [v, schema, Registry.builtin_eq]
    rfl
  · show v.aggregate store .count = .ok 2
    have hcounts : v.aggregate store .count =
        Aggregation.count.foldItems [.ok ⟨one, writeCount 1, 2⟩, .ok ⟨two, writeCount 1, 1⟩] 0 := by
      rw [hstore]
      simp only [v, schema, Registry.builtin_eq]
      rfl
    rw [hcounts]
    rfl

end View

end Strata
