/-
**The aggregates of a map.**

An aggregate of the map itself puts its one operator over everything that a partition holds.  So its
result is a fold over the partitions, each of which adds what the operator gathers of its newest
entries; a partition without entries adds nothing.  The size counts all entries.  The checksum and
the summary can be had exactly when every entry that they read can be read.

* `View.baseSetting`, `View.aggregateView_base` — the operator over the map itself;
* `Aggregation.gathered`, `View.aggregate_base` — **an aggregate as a fold over the partitions**;
* `View.size_base` — the size;
* `View.exists_checksum_iff`, `View.exists_stats_iff` — when there is a checksum, and a summary.
-/

import Strata.Proofs.View.Partials
import Strata.Proofs.View.Fallback
import Strata.Proofs.View.WellTyped

set_option relaxedAutoImplicit false
set_option autoImplicit false

namespace Strata

/-! ### The operator over the map itself -/

namespace View

/-- An operator over the map itself, with the codecs of the map. -/
def baseSetting (schema : Schema) (id : String) : Setting :=
  ⟨id, firstPriority, (View.base schema).inputOptions []⟩

variable {schema : Schema} {id : String} {r : Registration} {operator : Operator}

/-- **An aggregate of a map** puts its one operator on top of it. -/
theorem aggregateView_base (hfind : schema.registry.find? id = some r)
    (hid : id ≠ Sample.operatorId) (hkind : r.descriptor.kind = .aggregate)
    (hinput : r.descriptor.checkInput .typed = .ok ())
    (houtput : r.descriptor.output = some .long ∨ r.descriptor.output = some .summary)
    (hbuild : r.build (baseSetting schema id).options = .ok operator) :
    ∃ made, (View.base schema).aggregateView id [] = .ok made ∧ made.Sound ∧
      made.top.mode = .latest ∧
      (View.base schema).Topped (baseSetting schema id) operator made := by
  have hdescriptor : schema.registry.descriptor id = .ok r.descriptor := by
    rw [Registry.descriptor, hfind]
  have hregistry : schema.registry.build (baseSetting schema id) = .ok operator := by
    rw [Registry.build, show (baseSetting schema id).id = id from rfl, hfind]
    exact hbuild
  obtain ⟨format, hformat⟩ : ∃ format, (View.base schema).outputFormat r.descriptor
      (baseSetting schema id).options none = .ok (format, (baseSetting schema id).options) := by
    rw [outputFormat]
    rcases houtput with h | h <;> rw [h] <;> exact ⟨_, rfl⟩
  have hview : (View.base schema).aggregateView id [] = .ok _ :=
    aggregateView_of_build hdescriptor hinput hformat hregistry hid hkind
  obtain ⟨hsound, -, hmode, ⟨hempty, -⟩ | ⟨s, found, -, htop⟩⟩ :=
    (Sound.base schema).aggregateView_cases hview
  · cases hempty
  · obtain rfl : baseSetting schema id = s := Option.some.inj htop.top
    obtain rfl : operator = found := Except.ok.inj (hregistry.symm.trans htop.build)
    exact ⟨_, hview, hsound, hmode, htop⟩

end View

/-! ### Folds over the partitions -/

namespace Aggregation

variable {α : Type} (a : Aggregation α) {value : List Entry → Except OperatorError Bytes}

/-- What a partition adds: what is gathered of its newest entries is folded; of none, nothing. -/
def gathered (value : List Entry → Except OperatorError Bytes) (total : α) (p : Partition) :
    Except MapError α :=
  if p.rows.entries KeyRange.full .latest = [] then .ok total
  else ((value (p.rows.entries KeyRange.full .latest)).mapError MapError.ofOperatorError).bind
    (a.fold total)

/-- The share of a partition under one operator that gathers. -/
theorem share_gather {registry : Registry} {setting : Setting}
    (hbuild : registry.build setting = .ok (gather value)) {p : Partition}
    (hspan : ∀ row ∈ p.rows, p.span.contains row.1 = true) (total : α) :
    a.share registry ⟨KeyRange.full, .latest, [setting]⟩ total p = a.gathered value total p := by
  rw [share, gathered]
  split
  · have hrun : Store.runOperators registry [setting] (p.rows.entries KeyRange.full .latest) =
        gather value (p.rows.entries KeyRange.full .latest) := by
      rw [Store.runOperators, hbuild]
      dsimp only
      cases gather value (p.rows.entries KeyRange.full .latest) <;> rfl
    show ((Store.runOperators registry [setting] _).mapError _).bind _ = _
    rw [hrun, gather]
    split
    · next hlast =>
      rw [if_pos (List.getLast?_eq_none_iff.1 hlast)]
      rfl
    · next last hlast =>
      have hsome : p.rows.entries KeyRange.full .latest ≠ [] := by
        intro hnil
        simp [hnil] at hlast
      rw [if_neg hsome]
      cases value (p.rows.entries KeyRange.full .latest) with
      | error e => rfl
      | ok bytes =>
          show a.foldItems [.ok { last with value := bytes }] total = a.fold total bytes
          rw [foldItems]
          dsimp only
          cases a.fold total bytes <;> rfl
  · next hno =>
    rw [if_pos (Store.entries_of_not_meets hspan (Or.inr (by simpa using hno)))]

/-- A partition adds something when what it holds can be gathered, and then folded. -/
theorem exists_gathered_iff {good : Entry → Prop}
    (hvalue : ∀ entries, (∃ bytes, value entries = .ok bytes) ↔ ∀ e ∈ entries, good e)
    (hfold : ∀ total entries bytes, value entries = .ok bytes →
      ∃ next, a.fold total bytes = .ok next)
    (total : α) (p : Partition) :
    (∃ next, a.gathered value total p = .ok next) ↔
      ∀ e ∈ p.rows.entries KeyRange.full .latest, good e := by
  rw [gathered, ← hvalue]
  split
  · next hnil => simp [(hvalue _).2, hnil]
  · constructor
    · rintro ⟨next, h⟩
      obtain ⟨bytes, hbytes, -⟩ := bind_eq_ok.1 h
      exact ⟨bytes, mapError_eq_ok.1 hbytes⟩
    · rintro ⟨bytes, hbytes⟩
      obtain ⟨next, hnext⟩ := hfold total _ bytes hbytes
      exact ⟨next, bind_eq_ok.2 ⟨bytes, mapError_eq_ok.2 hbytes, hnext⟩⟩

end Aggregation

namespace View

variable {schema : Schema} {store : Store} {digest : Bytes → Bytes} {order : FieldOrder} {α : Type}

/-- An aggregation runs one operator that gathers over the map itself. -/
def GathersBase (schema : Schema) (a : Aggregation α)
    (value : List Entry → Except OperatorError Bytes) : Prop :=
  ∃ made, (View.base schema).aggregateView a.operatorId a.options = .ok made ∧ made.Sound ∧
    made.top.mode = .latest ∧
    (View.base schema).Topped (baseSetting schema a.operatorId) (gather value) made

/-- Where all partitions run the operator, an aggregate folds their shares. -/
theorem aggregate_shares {a : Aggregation α} {value : List Entry → Except OperatorError Bytes}
    (hgathers : GathersBase schema a value)
    (hruns : ∀ p ∈ store.partitions, p.runs a.operatorId = true) :
    schema.registry.build (baseSetting schema a.operatorId) = .ok (gather value) ∧
      (View.base schema).aggregate store a = store.partitions.foldlM (a.share store.registry
        ⟨KeyRange.full, .latest, [baseSetting schema a.operatorId]⟩) a.identity := by
  obtain ⟨made, hview, hmade, hmode, htop⟩ := hgathers
  have hshares : (View.base schema).aggregate store a =
      store.partitions.foldlM (a.share store.registry (made.scanner made.top.mode)) a.identity := by
    refine (Sound.aggregate_eq_or hmade a hview htop).resolve_right ?_
    rintro ⟨⟨p, hp, s, hs, hlacks⟩, -⟩
    obtain rfl := List.mem_singleton.1 hs
    exact Bool.false_ne_true (hlacks.symm.trans (hruns p hp))
  rw [hshares, htop.scanner, hmode]
  exact ⟨htop.build, rfl⟩

/-- **An aggregate of a map is a fold over the partitions**, each of which adds what is gathered of
its newest entries. -/
theorem aggregate_base {a : Aggregation α} {value : List Entry → Except OperatorError Bytes}
    (hgathers : GathersBase schema a value) (hstore : store.Sound)
    (hregistry : schema.registry = store.registry)
    (hruns : ∀ p ∈ store.partitions, p.runs a.operatorId = true) :
    (View.base schema).aggregate store a =
      store.partitions.foldlM (a.gathered value) a.identity := by
  obtain ⟨hbuild, hshares⟩ := aggregate_shares hgathers hruns
  have hfold : ∀ (partitions : List Partition), (∀ p ∈ partitions, p ∈ store.partitions) →
      ∀ total, partitions.foldlM (a.share store.registry
          ⟨KeyRange.full, .latest, [baseSetting schema a.operatorId]⟩) total =
        partitions.foldlM (a.gathered value) total := by
    intro partitions hsub
    induction partitions with
    | nil => exact fun _ => rfl
    | cons p rest ih =>
        rw [List.forall_mem_cons] at hsub
        intro total
        rw [List.foldlM_cons, List.foldlM_cons,
          a.share_gather (hregistry ▸ hbuild) (hstore.placed.inSpan p hsub.1)]
        exact congrArg _ (funext fun next => ih hsub.2 next)
  rw [hshares, hfold _ fun _ hp => hp]

/-- There is an aggregate of a map when everything that the map holds is good for it. -/
theorem exists_aggregate_iff {a : Aggregation α} {value : List Entry → Except OperatorError Bytes}
    {good : Entry → Prop} (hgathers : GathersBase schema a value) (hstore : store.Sound)
    (hregistry : schema.registry = store.registry)
    (hruns : ∀ p ∈ store.partitions, p.runs a.operatorId = true)
    (hvalue : ∀ entries, (∃ bytes, value entries = .ok bytes) ↔ ∀ e ∈ entries, good e)
    (hfold : ∀ total entries bytes, value entries = .ok bytes →
      ∃ next, a.fold total bytes = .ok next) :
    (∃ result, (View.base schema).aggregate store a = .ok result) ↔
      ∀ e ∈ store.contents.entries KeyRange.full .latest, good e := by
  rw [aggregate_base hgathers hstore hregistry hruns,
    exists_foldlM_iff (a.exists_gathered_iff hvalue hfold), Store.entries_contents]
  simp only [List.mem_flatMap]
  constructor
  · rintro h e ⟨p, hp, he⟩
    exact h p hp e he
  · intro h p hp e he
    exact h e ⟨p, hp, he⟩

/-! ### The three aggregates -/

/-- What the sums of hash codes are gathered to. -/
def hashesOf (schema : Schema) (entries : List Entry) : Except OperatorError Bytes :=
  (entries.foldlM (addHashes schema.keyCodec schema.valueCodec) Checksum.empty).map fun c =>
    Codec.LongWord.write c.packed.toInt64

theorem exists_write_of_hashesOf {entries : List Entry} {bytes : Bytes}
    (h : hashesOf schema entries = .ok bytes) : ∃ word, bytes = Codec.LongWord.write word := by
  rw [hashesOf] at h
  cases hsum : entries.foldlM (addHashes schema.keyCodec schema.valueCodec) Checksum.empty with
  | error e => simp [hsum, Except.map] at h
  | ok c => exact ⟨_, (Except.ok.inj (hsum ▸ h)).symm⟩

theorem exists_write_of_summarize {codec : Codec} {entries : List Entry} {bytes : Bytes}
    (h : (summarize codec entries).map writeSummary = .ok bytes) : ∃ s, bytes = writeSummary s := by
  cases hsum : summarize codec entries with
  | error e => simp [hsum, Except.map] at h
  | ok s => exact ⟨s, (Except.ok.inj (hsum ▸ h)).symm⟩

/-! The three operators are those of the registry of the map. -/

theorem gathersBase_count
    (hfind : schema.registry.find? "count" = (Registry.builtin digest order).find? "count") :
    GathersBase schema .count fun entries => .ok (writeCount entries.length) := by
  have hknown : schema.registry.find? "count" =
      some ⟨⟨"count", .aggregate, [], some .long⟩, countAll⟩ := by
    rw [hfind, Registry.builtin_eq]
    rfl
  exact aggregateView_base hknown (by decide) rfl rfl (Or.inl rfl) rfl

theorem gathersBase_checksum
    (hfind : schema.registry.find? "checksum" = (Registry.builtin digest order).find? "checksum") :
    GathersBase schema .checksum (hashesOf schema) := by
  have hknown : schema.registry.find? "checksum" =
      some ⟨⟨"checksum", .aggregate, Registry.decodable, some .long⟩, checksumAll⟩ := by
    rw [hfind, Registry.builtin_eq]
    rfl
  obtain ⟨hkey, hvalue, -⟩ := get?_inputOptions (v := View.base schema) namesNoCodec_nil
  have hbuild : checksumAll (baseSetting schema "checksum").options =
      .ok (gather (hashesOf schema)) := by
    rw [checksumAll, baseSetting, Options.codec_of_get? hkey,
      Options.codec_of_get? (hvalue schema.valueCodec rfl)]
    rfl
  exact aggregateView_base hknown (by decide) rfl rfl (Or.inl rfl) hbuild

theorem gathersBase_stats
    (hfind : schema.registry.find? "stats" = (Registry.builtin digest order).find? "stats") :
    GathersBase schema .summary fun entries =>
      (summarize schema.valueCodec entries).map writeSummary := by
  have hknown : schema.registry.find? "stats" =
      some ⟨⟨"stats", .aggregate, Registry.decodable, some .summary⟩, summarizeAll⟩ := by
    rw [hfind, Registry.builtin_eq]
    rfl
  obtain ⟨-, hvalue, -⟩ := get?_inputOptions (v := View.base schema) namesNoCodec_nil
  have hbuild : summarizeAll (baseSetting schema "stats").options =
      .ok (gather fun entries => (summarize schema.valueCodec entries).map writeSummary) := by
    rw [summarizeAll, baseSetting, Options.codec_of_get? (hvalue schema.valueCodec rfl)]
    rfl
  exact aggregateView_base hknown (by decide) rfl rfl (Or.inr rfl) hbuild

/-! ### When there are aggregates -/

section Results

variable (hstore : store.Sound) (hregistry : schema.registry = .builtin digest order)
  (hbuild : store.registry = .builtin digest order)
  (hruns : ∀ p ∈ store.partitions, ∀ id ∈ (Registry.builtin digest order).ids, p.runs id = true)

include hstore hregistry hbuild hruns

/-- **The size of a map is the number of its entries**, in 64 bits. -/
theorem size_base : (View.base schema).size store =
    .ok (UInt64.ofNat (store.contents.entries KeyRange.full .latest).length) := by
  have hcount : "count" ∈ (Registry.builtin digest order).ids := by simp [Registry.ids_builtin]
  have hgathered : ∀ (total : UInt64) (p : Partition),
      Aggregation.count.gathered (fun entries => .ok (writeCount entries.length)) total p =
        .ok (total + UInt64.ofNat (p.rows.entries KeyRange.full .latest).length) := by
    intro total p
    rw [Aggregation.gathered]
    split
    · next hnil => simp [hnil]
    · exact Aggregation.fold_count total _
  have hfold : ∀ (partitions : List Partition) (total : UInt64),
      partitions.foldlM (Aggregation.count.gathered fun entries =>
          .ok (writeCount entries.length)) total =
        .ok (total + UInt64.ofNat
          (partitions.flatMap fun p => p.rows.entries KeyRange.full .latest).length) := by
    intro partitions
    induction partitions with
    | nil => simp [pure, Except.pure]
    | cons p rest ih =>
        intro total
        rw [List.foldlM_cons, hgathered]
        show rest.foldlM _ _ = _
        rw [ih, List.flatMap_cons, List.length_append, UInt64.ofNat_add, UInt64.add_assoc]
  have hgathers := gathersBase_count (congrArg (Registry.find? · "count") hregistry)
  rw [size, aggregate_base hgathers hstore (hregistry.trans hbuild.symm)
    fun p hp => hruns p hp _ hcount, hfold, Store.entries_contents]
  show Except.ok (0 + _) = _
  rw [UInt64.zero_add]

/-- **There is a checksum** when all keys and values can be read. -/
theorem exists_checksum_iff : (∃ word, (View.base schema).checksum store = .ok word) ↔
    ∀ e ∈ store.contents.entries KeyRange.full .latest,
      (∃ key, schema.keyCodec.decode e.key = .ok key) ∧
        ∃ value, schema.valueCodec.decode e.value = .ok value := by
  have hchecksum : "checksum" ∈ (Registry.builtin digest order).ids := by
    simp [Registry.ids_builtin]
  have hgathers := gathersBase_checksum (congrArg (Registry.find? · "checksum") hregistry)
  refine exists_aggregate_iff hgathers hstore (hregistry.trans hbuild.symm)
    (fun p hp => hruns p hp _ hchecksum) ?_ ?_
  · intro entries
    refine (exists_hashes_iff schema.keyCodec schema.valueCodec entries).trans ?_
    simp only [OperatorError.ofCodec_eq_ok, exists_and_left, exists_and_right]
  · intro total entries bytes hbytes
    obtain ⟨word, rfl⟩ := exists_write_of_hashesOf hbytes
    exact ⟨_, Aggregation.fold_checksum total word⟩

/-- **There is a summary** when all values can be read. -/
theorem exists_stats_iff : (∃ s, (View.base schema).stats store = .ok s) ↔
    ∀ e ∈ store.contents.entries KeyRange.full .latest,
      ∃ value, schema.valueCodec.decode e.value = .ok value := by
  have hstats : "stats" ∈ (Registry.builtin digest order).ids := by simp [Registry.ids_builtin]
  have hgathers := gathersBase_stats (congrArg (Registry.find? · "stats") hregistry)
  refine exists_aggregate_iff hgathers hstore (hregistry.trans hbuild.symm)
    (fun p hp => hruns p hp _ hstats) ?_ ?_
  · intro entries
    refine (exists_summary_iff schema.valueCodec entries).trans ?_
    simp only [OperatorError.ofCodec_eq_ok]
  · intro total entries bytes hbytes
    obtain ⟨s, rfl⟩ := exists_write_of_summarize hbytes
    exact ⟨_, Aggregation.fold_summary total s⟩

end Results

end View

end Strata
