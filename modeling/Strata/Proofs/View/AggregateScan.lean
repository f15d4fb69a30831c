/-
**What an aggregate view shows.**

An aggregate runs next to the data, on what every partition shows of the view below it: whatever
operators are there, those that merge entries, drop them or are aggregates themselves.  So it shows
one partial for every partition that shows something, and the size of a view, which adds up the
counts of partitions, is the number of its entries, wherever the store is cut.

* `View.summary_iff_of_derived` — the value type says how values are read;
* `View.exists_standsFor_of_aggregateView` — what the operator makes, and by which codecs it reads;
* `View.Sound.flatten_partsOf`, `View.Sound.scan_iff_partials` — **scans of an aggregate view**;
* `View.Sound.size_eq_ok_iff` — **the size of a view**;
* `View.scan_aggregateView` — both, for every derived view.
-/

import Strata.Proofs.View.Compiled
import Strata.Proofs.View.Partials

set_option relaxedAutoImplicit false
set_option autoImplicit false

namespace Strata

namespace Registry

variable {digest : Bytes → Bytes} {order : FieldOrder} {id : String} {d : Descriptor}

/-- The aggregates make words and summaries; those that read values accept what a codec reads. -/
theorem descriptor_aggregate (hid : id ∈ ["count", "checksum", "stats"])
    (hd : (builtin digest order).descriptor id = .ok d) :
    d.output ≠ none ∧ d.output ≠ some .typed ∧ (id ≠ "count" → d.accepts = decodable) := by
  rw [builtin_eq] at hd
  simp only [List.mem_cons, List.not_mem_nil, or_false] at hid
  rcases hid with rfl | rfl | rfl <;> obtain rfl := Except.ok.inj hd <;> simp

end Registry

namespace View

variable {v w : View} {store : Store} {digest : Bytes → Bytes} {order : FieldOrder} {id : String}
  {options : Options}
  {mode : ScanMode} {keyCodec valueCodec : Codec}

/-! ### The operator -/

/-- The value type of a derived view says how its values are read. -/
theorem summary_iff_of_derived {schema : Schema} {steps : List Step}
    (hview : (View.base schema).derived steps = .ok v) :
    v.top.valueType = .summary ↔ v.top.format = .summary := by
  refine derived_induction (P := fun v => v.top.valueType = .summary ↔ v.top.format = .summary)
    ?_ ?_ (by simp [View.base]) hview
  · intro v range hv
    rw [valueType_restrict, format_restrict, hv]
  · intro v id options asked mode w hv hstack
    obtain ⟨d, format, made, operator, -, -, hformat, -, rfl⟩ := stack_eq_ok hstack
    exact summary_iff_of_outputFormat hv hformat

/-- **What an aggregate view puts on** makes values that stand for entries.  Unless its options name
codecs, keys and values are read by those of the view below. -/
theorem exists_standsFor_of_aggregateView
    (hregistry : w.schema.registry = .builtin digest order)
    (hsummary : w.top.valueType = .summary ↔ w.top.format = .summary)
    (hid : id ∈ ["count", "checksum", "stats"]) (hview : w.aggregateView id options = .ok v) :
    ∃ keyCodec valueCodec value,
      (options.NamesNoCodec → id ≠ "count" →
        keyCodec = w.schema.keyCodec ∧ w.top.format = .coded valueCodec) ∧
      (∀ part bytes, value part = .ok bytes ↔ StandsFor id keyCodec valueCodec part bytes) ∧
      ((w.kind = .empty ∧ v.kind = .empty) ∨
        ∃ setting, setting.id = id ∧ w.Topped setting (gather value) v) := by
  obtain ⟨d, format, made, operator, hd, hinput, hformat, hbuild, rfl⟩ :=
    stack_eq_ok (aggregateView_eq_ok hview).1
  have hbuilt :
      (Registry.builtin digest order).build ⟨id, w.top.nextPriority, made⟩ = .ok operator :=
    hregistry ▸ hbuild
  obtain ⟨houtput, htyped, haccepts⟩ := Registry.descriptor_aggregate hid (hregistry ▸ hd)
  have hmade : made = w.inputOptions options := by
    rcases outputFormat_cases hformat with ⟨hnone, -⟩ | ⟨-, -, hmade⟩ | ⟨-, -, hmade⟩ | ⟨htype, -⟩
    · exact absurd hnone houtput
    · exact hmade
    · exact hmade
    · exact absurd htype htyped
  obtain ⟨keyCodec, valueCodec, value, rfl, hkey, hvalue, hstands⟩ :=
    Registry.standsFor_of_build hid hbuilt w.schema.keyCodec
  refine ⟨keyCodec, valueCodec, value, ?_, hstands, ?_⟩
  · intro hoptions hcount
    obtain ⟨hkeyOption, hvalueOption, -⟩ := get?_inputOptions (v := w) hoptions
    obtain ⟨c, hc⟩ := coded_of_checkInput hsummary (haccepts hcount) hinput
    have hread := (Options.codec_of_get? (hvalueOption c hc)).symm.trans (hmade ▸ hvalue hcount)
    refine ⟨?_, by rw [hc, Except.ok.inj hread]⟩
    dsimp only at hkey
    split at hkey
    · rw [hmade] at hkey
      exact Except.ok.inj (hkey.symm.trans (Options.codec_of_get? hkeyOption))
    · exact hkey
  · refine (operatorLayer_cases w d format w.top.mode hbuild).imp ?_ ?_
    · rintro ⟨hempty, hkind, -⟩
      exact ⟨hempty, hkind⟩
    · intro htop
      exact ⟨_, rfl, htop⟩

/-! ### Scans -/

/-- A scan of a view is put together from what the partitions show. -/
theorem Sound.flatten_partsOf (h : w.Sound) (hstore : store.Sound)
    (hkeys : KeepsKeys (Store.runOperators store.registry w.settings)) {shown : List Entry}
    (hshown : w.scan store none mode = .ok (shown.map .ok)) :
    (partsOf shown store.bounds).flatten = shown := by
  by_cases hempty : w.kind = .empty
  · obtain rfl := h.eq_nil_of_scan hempty hshown
    simp [partsOf, partOf]
  · rw [h.scan_eq hempty, scan_eq_ok_iff] at hshown
    exact hstore.flatten_partsOf h.searchable hkeys hshown

/-- **A scan of an aggregate view** returns one partial for every partition that shows something of
the view below; it fails where that fails, where a partition in range lacks the operator, and where
there is no value that stands for what a partition shows. -/
theorem Sound.scan_iff_partials {value : List Entry → Except OperatorError Bytes} (h : w.Sound)
    (hv : v.Sound) (hstore : store.Sound) (hsame : w.schema.registry = store.registry)
    (hkeys : KeepsKeys (Store.runOperators store.registry w.settings))
    (hvalue : ∀ part bytes, value part = .ok bytes ↔ StandsFor id keyCodec valueCodec part bytes)
    (hcases : (w.kind = .empty ∧ v.kind = .empty) ∨
      ∃ setting, setting.id = id ∧ w.Topped setting (gather value) v) {found : List Entry} :
    v.scan store none mode = .ok (found.map .ok) ↔
      w.RunsOn store id ∧ ∃ shown : List Entry, w.scan store none mode = .ok (shown.map .ok) ∧
        List.Forall₂ (Partial id keyCodec valueCodec) (partsOf shown store.bounds) found := by
  rcases hcases with ⟨hempty, hkind⟩ | ⟨setting, rfl, htop⟩
  · -- there are no partials of nothing
    have hparts : partsOf [] store.bounds = [] := by simp [partsOf, partOf]
    rw [hv.scan_of_empty hkind, h.scan_of_empty hempty]
    constructor
    · intro hfound
      obtain rfl := List.map_eq_nil_iff.1 (Except.ok.inj hfound).symm
      exact ⟨fun hne => absurd hempty hne, [], rfl, hparts ▸ .nil⟩
    · rintro ⟨-, shown, hshown, hfound⟩
      obtain rfl := List.map_eq_nil_iff.1 (Except.ok.inj hshown).symm
      rw [hparts] at hfound
      cases hfound
      rfl
  · have hfull : w.top.range.intersect KeyRange.full = some w.top.range := by
      rw [KeyRange.intersect_full, h.searchable]
      rfl
    rw [← hv.scan_full, htop.scan_iff h hv hstore hsame gather_nil hkeys]
    simp only [RunsOn, h.scan_full, perSpan_gather_iff hvalue, hfull, Option.some.injEq,
      forall_eq', ne_eq, htop.below, not_false_eq_true, true_imp_iff]

/-! ### The size -/

/-- **The size of a view is the number of its entries**, in 64 bits; there is one when the view can
be scanned and no partition in range lacks the operator that counts. -/
theorem Sound.size_eq_ok_iff (h : w.Sound) (hregistry : w.schema.registry = .builtin digest order)
    (hsummary : w.top.valueType = .summary ↔ w.top.format = .summary)
    (hstore : store.Sound) (hsame : w.schema.registry = store.registry)
    (hkeys : KeepsKeys (Store.runOperators store.registry w.settings)) {n : UInt64} :
    w.size store = .ok n ↔
      w.RunsOn store "count" ∧ ∃ shown : List Entry,
        w.scan store none w.top.mode = .ok (shown.map .ok) ∧ n = UInt64.ofNat shown.length := by
  obtain ⟨made, hview⟩ := exists_aggregateView_count hregistry
  obtain ⟨keyCodec, valueCodec, value, -, hvalue, hcases⟩ :=
    exists_standsFor_of_aggregateView hregistry hsummary (by simp) hview
  obtain ⟨hmade, -, hmode, -⟩ := h.aggregateView_cases hview
  have hscan (found : List Entry) : made.scan store none w.top.mode = .ok (found.map .ok) ↔ _ :=
    h.scan_iff_partials hmade hstore hsame hkeys hvalue hcases
  -- every entry is counted in the part of its partition
  have htotal {shown found : List Entry}
      (hshown : w.scan store none w.top.mode = .ok (shown.map .ok))
      (hfound : List.Forall₂ (Partial "count" keyCodec valueCodec)
        (partsOf shown store.bounds) found) :
      Aggregation.count.foldItems (found.map .ok) 0 = .ok (UInt64.ofNat shown.length) := by
    rw [Aggregation.foldItems_count hfound, h.flatten_partsOf hstore hkeys hshown, UInt64.zero_add]
  constructor
  · intro hn
    obtain ⟨made', hmade', hn⟩ := bind_eq_ok.1 hn
    obtain rfl := Except.ok.inj (hview.symm.trans hmade')
    obtain ⟨items, hitems, hn⟩ := bind_eq_ok.1 hn
    obtain ⟨found, rfl⟩ := Aggregation.eq_map_ok_of_foldItems hn
    rw [hmode] at hitems
    obtain ⟨hruns, shown, hshown, hfound⟩ := (hscan found).1 hitems
    exact ⟨hruns, shown, hshown, Except.ok.inj (hn.symm.trans (htotal hshown hfound))⟩
  · rintro ⟨hruns, shown, hshown, rfl⟩
    obtain ⟨found, hfound⟩ := exists_partials_count fun part hpart => ne_nil_of_mem_partsOf hpart
    have hitems := (hscan found).2 ⟨hruns, shown, hshown, hfound⟩
    rw [← hmode] at hitems
    exact bind_eq_ok.2 ⟨made, hview, bind_eq_ok.2 ⟨_, hitems, htotal hshown hfound⟩⟩

/-! ### Every derived view -/

/-- **What aggregate views show, and the size of a view.**  The view below was derived in any way
from the map of a store that has been changed in any way, and one of the three aggregates is on top
of it.  What the view below shows is put together from the parts of the partitions.  The aggregate
can be scanned, in either mode, when the view below can, no partition in range lacks the operator
and every part has a value that stands for it; it then shows one partial for every partition that
shows something, in the order of their keys, no two of which are equal.  The size of a view is the
number of its entries in its own mode. -/
theorem scan_aggregateView (digest : Bytes → Bytes) (order : FieldOrder) (layout : StoreLayout)
    (calls : List StoreCall) (schema : Schema) (hregistry : schema.registry = .builtin digest order)
    (steps : List Step) (w : View) (hbelow : (View.base schema).derived steps = .ok w) :
    let store := (Store.ofLayout layout (.builtin digest order)).run calls
    (∀ (mode : ScanMode) (shown : List Entry), w.scan store none mode = .ok (shown.map .ok) →
      (partsOf shown store.bounds).flatten = shown) ∧
    (∀ (id : String) (options : Options) (v : View), id ∈ ["count", "checksum", "stats"] →
      w.aggregateView id options = .ok v →
      v.top.mode = w.top.mode ∧ ∃ keyCodec valueCodec : Codec,
        (options.NamesNoCodec → id ≠ "count" →
          keyCodec = w.schema.keyCodec ∧ w.top.format = .coded valueCodec) ∧
        ∀ (mode : ScanMode) (found : List Entry),
          (v.scan store none mode = .ok (found.map .ok) ↔ w.RunsOn store id ∧
            ∃ shown : List Entry, w.scan store none mode = .ok (shown.map .ok) ∧
              List.Forall₂ (Partial id keyCodec valueCodec) (partsOf shown store.bounds) found) ∧
          (v.scan store none mode = .ok (found.map .ok) →
            (found.map (·.key)).Pairwise (· < ·))) ∧
    (∀ n, w.size store = .ok n ↔ w.RunsOn store "count" ∧
      ∃ shown : List Entry, w.scan store none w.top.mode = .ok (shown.map .ok) ∧
        n = UInt64.ofNat shown.length) ∧
    (w.kind = .empty → w.size store = .ok 0) := by
  intro store
  have h : w.Sound := (Sound.base schema).derived hbelow
  have hstore : store.Sound := Store.sound_run layout _ calls
  have hstoreRegistry : store.registry = .builtin digest order := Store.registry_run _ calls
  have hviewRegistry : w.schema.registry = .builtin digest order :=
    (schema_derived hbelow).symm ▸ hregistry
  have hsame : w.schema.registry = store.registry := hviewRegistry.trans hstoreRegistry.symm
  have hkeys := keepsKeys_builtin hstoreRegistry w.settings
  have hsummary := summary_iff_of_derived hbelow
  refine ⟨fun mode shown hshown => h.flatten_partsOf hstore hkeys hshown, ?_, fun n =>
    h.size_eq_ok_iff hviewRegistry hsummary hstore hsame hkeys, h.size_of_empty hviewRegistry⟩
  intro id options v hid hview
  obtain ⟨keyCodec, valueCodec, value, hcodecs, hvalue, hcases⟩ :=
    exists_standsFor_of_aggregateView hviewRegistry hsummary hid hview
  obtain ⟨hv, -, hmode, -⟩ := h.aggregateView_cases hview
  refine ⟨hmode, keyCodec, valueCodec, hcodecs, fun mode found => ?_⟩
  have hscan : v.scan store none mode = .ok (found.map .ok) ↔ _ :=
    h.scan_iff_partials hv hstore hsame hkeys hvalue hcases
  refine ⟨hscan, fun hfound => ?_⟩
  obtain ⟨-, shown, -, hpartials⟩ := hscan.1 hfound
  exact (hstore.tiles.ascending_partials hpartials).1

/-- One entry and two, around a partition that holds none: they are two partials, and the size of
the view of these is two. -/
theorem scan_aggregateView_count :
    let one := Codec.LongWord.write 1
    let two := Codec.LongWord.write 2
    let three := Codec.LongWord.write 3
    let four := Codec.LongWord.write 4
    let store := (Store.ofLayout ⟨[two, three], Limits.standard, none⟩ (.builtin Sha256.digest)).run
      [.writeBatch [.put one one, .put three one, .put four one]]
    let schema : Schema := ⟨.long, .long, Settings.standard, .builtin Sha256.digest⟩
    ∃ v, (View.base schema).aggregateView "count" [] = .ok v ∧
      v.scan store none .latest =
        .ok ([⟨one, writeCount 1, 1⟩, ⟨four, writeCount 2, 3⟩].map .ok) ∧
      (View.base schema).size store = .ok 3 ∧ v.size store = .ok 2 := by
  intro one two three four store schema
  have hpartitions : store.partitions =
      [⟨none, some two, [(one, ⟨⟨one, 1⟩, []⟩)], (Registry.builtin Sha256.digest).ids⟩,
        ⟨some two, some three, [], (Registry.builtin Sha256.digest).ids⟩,
        ⟨some three, none, [(three, ⟨⟨one, 2⟩, []⟩), (four, ⟨⟨one, 3⟩, []⟩)],
          (Registry.builtin Sha256.digest).ids⟩] := rfl
  have hruns : ∀ w : View, w.RunsOn store "count" := by
    intro w _ p hp _
    rw [hpartitions, Registry.ids_builtin] at hp
    simp only [List.mem_cons, List.not_mem_nil, or_false] at hp
    rcases hp with rfl | rfl | rfl <;> rfl
  have hshown : (View.base schema).scan store none .latest =
      .ok ([⟨one, one, 1⟩, ⟨three, one, 2⟩, ⟨four, one, 3⟩].map .ok) := rfl
  have hregistry : (View.base schema).schema.registry = .builtin Sha256.digest := rfl
  obtain ⟨v, hview⟩ := exists_aggregateView_count hregistry
  have hderived : (View.base schema).derived [.aggregateView "count" []] = .ok v := by
    rw [derived_singleton]
    exact hview
  obtain ⟨-, hpartials, hsize, -⟩ := scan_aggregateView Sha256.digest .asRead
    ⟨[two, three], Limits.standard, none⟩ _ schema rfl [] (View.base schema) rfl
  obtain ⟨-, -, hsizes, -⟩ := scan_aggregateView Sha256.digest .asRead
    ⟨[two, three], Limits.standard, none⟩ _ schema rfl _ v hderived
  obtain ⟨hmode, keyCodec, valueCodec, -, hscan⟩ := hpartials "count" [] v (by simp) hview
  have hparts : partsOf [⟨one, one, 1⟩, ⟨three, one, 2⟩, ⟨four, one, 3⟩] store.bounds =
      [[⟨one, one, 1⟩], [⟨three, one, 2⟩, ⟨four, one, 3⟩]] := by decide
  have hfound : v.scan store none .latest =
      .ok ([⟨one, writeCount 1, 1⟩, ⟨four, writeCount 2, 3⟩].map .ok) := by
    refine (hscan .latest _).1.2 ⟨hruns _, _, hshown, ?_⟩
    rw [hparts]
    exact .cons ⟨⟨_, rfl, rfl, rfl⟩, Or.inl ⟨rfl, rfl⟩⟩
      (.cons ⟨⟨_, rfl, rfl, rfl⟩, Or.inl ⟨rfl, rfl⟩⟩ .nil)
  refine ⟨v, hview, hfound, (hsize 3).2 ⟨hruns _, _, hshown, rfl⟩, ?_⟩
  have hown : v.scan store none v.top.mode = _ := (congrArg _ hmode).trans hfound
  exact (hsizes 2).2 ⟨hruns v, _, hown, rfl⟩

end View

end Strata
