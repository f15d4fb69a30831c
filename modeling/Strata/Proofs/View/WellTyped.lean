/-
**Well-typed stacks do not go wrong.**

When a view is derived, every operator is checked against the values below it and is given the
codecs by which keys and values there are read.  These checks are enough: if a store holds nothing
but what was written through the map and can be read through it, no derived view ever fails, and
all that it returns can be read in the view's own way.  What carries this is that the value type
by which operators are checked says how values are read: they are summaries by the one exactly when
they are by the other.

* `Schema.Wrote`, `Schema.AnnouncesKey` — what was written through a map and can be read, and keys
  that announce their sizes;
* `View.Step.Plain` — derivations that give operators no options of their own;
* `View.outputFormat_cases` — which options an operator gets, and how its values are read;
* `View.WellTyped`, `View.WellTyped.stack`, `View.WellTyped.derived` — **the invariant**;
* `View.well_typed` — **no failure, and every entry can be read**.
-/

import Strata.Map.Batch
import Strata.Proofs.Operator.Builtin
import Strata.Proofs.Store.Narrow
import Strata.Proofs.Store.VersionedMap
import Strata.Proofs.View.Derived
import Strata.Proofs.View.Readable
import Strata.Sha256

set_option relaxedAutoImplicit false
set_option autoImplicit false

namespace Strata

/-! ### What was written through a map -/

/-- The key and the value were written through the map and can be read by its codecs. -/
structure Schema.Wrote (schema : Schema) (key value : Bytes) : Prop where
  written : ∃ k v, schema.putMutation k v = .ok (.put key value)
  key : ∃ k, schema.keyCodec.decode key = .ok k
  value : ∃ v, schema.valueCodec.decode value = .ok v

/-- The key was written of a value whose every size its codec can announce. -/
def Schema.AnnouncesKey (schema : Schema) (key : Bytes) : Prop :=
  ∃ k, schema.keyCodec.Announces k ∧ schema.keyCodec.encode k = .ok key

variable {schema : Schema} {e : Entry}

/-- A short key announces every size. -/
theorem Schema.Wrote.announcesKey (h : schema.Wrote e.key e.value)
    (hlength : e.key.length < 2 ^ 32) : schema.AnnouncesKey e.key := by
  obtain ⟨k, v, hput⟩ := h.written
  obtain ⟨key, hkey, hput⟩ := bind_eq_ok.1 hput
  obtain ⟨value, -, hput⟩ := bind_eq_ok.1 hput
  obtain ⟨hsame, -⟩ := Mutation.put.inj (Except.ok.inj hput)
  rw [← hsame] at hlength ⊢
  exact ⟨k, Codec.announces_of_length hlength (mapError_eq_ok.1 hkey), mapError_eq_ok.1 hkey⟩

/-- What was written under a key that announces every size is readable. -/
theorem Schema.Wrote.readable (h : schema.Wrote e.key e.value) (hkey : schema.AnnouncesKey e.key) :
    e.Readable schema.keyCodec (.coded schema.valueCodec) := by
  obtain ⟨k, hannounces, hencode⟩ := hkey
  obtain ⟨w, hw⟩ := h.key
  have hback := Codec.readsBack_encode hannounces hencode
  rw [hw] at hback
  exact ⟨⟨w, hw, hback.shallow⟩, ValueReading.decode_coded.2 h.value⟩

/-! ### Options -/

namespace Options

variable {options : Options} {name value other : String}

theorem get?_cons (option : String × String) :
    get? (option :: options) name =
      if name = option.1 then some option.2 else options.get? name := by
  by_cases h : name = option.1
  · subst h
    simp [get?, List.lookup]
  · have hne : (name == option.1) = false := beq_false_of_ne h
    simp [get?, List.lookup, hne, h]

theorem get?_set :
    (options.set name value).get? other =
      if other = name then some value else options.get? other := by
  induction options with
  | nil => rw [set, get?_cons]
  | cons option options ih =>
      rw [set]
      split
      · next h =>
        rw [get?_cons, get?_cons, h]
        split <;> rfl
      · next h =>
        rw [get?_cons, get?_cons, ih]
        by_cases hother : other = option.1
        · rw [if_pos hother, if_pos hother, if_neg fun heq => h (hother.symm.trans heq)]
        · rw [if_neg hother, if_neg hother]

theorem get?_setDefault_of_ne (h : other ≠ name) :
    (options.setDefault name value).get? other = options.get? other := by
  rw [setDefault]
  split
  · rfl
  · rw [get?_set, if_neg h]

theorem get?_setDefault_of_none (h : options.get? name = none) :
    (options.setDefault name value).get? name = some value := by
  rw [setDefault, h, if_neg (by simp), get?_set, if_pos rfl]

/-- The codec of an option that names it. -/
theorem codec_of_get? {c : Codec} (h : options.get? name = some c.id) :
    options.codec name = .ok c := by
  rw [codec, h, Option.getD_some, Codec.named_id]
  rfl

/-- The options name no codec. -/
structure NamesNoCodec (options : Options) : Prop where
  key : options.get? keyCodec = none
  valueInput : options.get? valueInputCodec = none
  valueOutput : options.get? valueOutputCodec = none

theorem namesNoCodec_of_forall
    (h : ∀ option ∈ options, option.1 ∉ [keyCodec, valueInputCodec, valueOutputCodec]) :
    options.NamesNoCodec := by
  have hnone : ∀ name ∈ [keyCodec, valueInputCodec, valueOutputCodec],
      options.get? name = none := by
    intro name hname
    refine List.lookup_eq_none_iff.2 ?_
    intro option hoption
    simp only [bne_iff_ne, ne_eq]
    rintro rfl
    exact h option hoption hname
  exact ⟨hnone _ (by simp), hnone _ (by simp), hnone _ (by simp)⟩

end Options

namespace View

variable {v w : View} {digest : Bytes → Bytes} {order : FieldOrder} {options made : Options}
  {asked : Option Codec}
  {id : String} {d : Descriptor} {format : ValueReading} {operator : Operator}

/-- What an operator gets to know: by which codecs keys and values below it are read. -/
theorem get?_inputOptions (h : options.NamesNoCodec) :
    (v.inputOptions options).get? Options.keyCodec = some v.schema.keyCodec.id ∧
      (∀ c, v.top.format = .coded c →
        (v.inputOptions options).get? Options.valueInputCodec = some c.id) ∧
      (v.inputOptions options).get? Options.valueOutputCodec = none := by
  have hkey : (options.setDefault Options.keyCodec v.schema.keyCodec.id).get? Options.keyCodec =
      some v.schema.keyCodec.id := Options.get?_setDefault_of_none h.key
  have hinput : (options.setDefault Options.keyCodec v.schema.keyCodec.id).get?
      Options.valueInputCodec = none :=
    (Options.get?_setDefault_of_ne (by decide)).trans h.valueInput
  have houtput : (options.setDefault Options.keyCodec v.schema.keyCodec.id).get?
      Options.valueOutputCodec = none :=
    (Options.get?_setDefault_of_ne (by decide)).trans h.valueOutput
  rw [inputOptions]
  cases v.top.format with
  | coded codec =>
      refine ⟨?_, fun c hc => ?_, ?_⟩
      · exact (Options.get?_setDefault_of_ne (by decide)).trans hkey
      · obtain rfl := ValueReading.coded.inj hc
        exact Options.get?_setDefault_of_none hinput
      · exact (Options.get?_setDefault_of_ne (by decide)).trans houtput
  | summary => exact ⟨hkey, fun c hc => (by cases hc), houtput⟩

/-- How the values that an operator makes are read, and which options it gets. -/
theorem outputFormat_cases (h : v.outputFormat d options asked = .ok (format, made)) :
    (d.output = none ∧ format = v.top.format ∧ made = options) ∨
      (d.output = some .long ∧ format = .coded .long ∧ made = options) ∨
      (d.output = some .summary ∧ format = .summary ∧ made = options) ∨
      (d.output = some .typed ∧ ∃ c, v.outputCodec options asked = .ok c ∧ format = .coded c ∧
        made = options.set Options.valueOutputCodec c.id) := by
  rw [outputFormat] at h
  split at h
  · next houtput => simp_all
  · next houtput => simp_all
  · next houtput => simp_all
  · next houtput =>
    cases hcodec : v.outputCodec options asked with
    | error e => simp [hcodec, Except.map] at h
    | ok c =>
        obtain ⟨rfl, rfl⟩ : .coded c = format ∧
            options.set Options.valueOutputCodec c.id = made := by
          simpa [hcodec, Except.map] using h
        exact Or.inr (Or.inr (Or.inr ⟨houtput, c, rfl, rfl, rfl⟩))

/-- **The value type says how values are read** after an operator if it did before. -/
theorem summary_iff_of_outputFormat
    (hsummary : v.top.valueType = .summary ↔ v.top.format = .summary)
    (h : v.outputFormat d options asked = .ok (format, made)) :
    d.outputType v.top.valueType = .summary ↔ format = .summary := by
  rw [Descriptor.outputType]
  rcases outputFormat_cases h with ⟨hd, rfl, -⟩ | ⟨hd, rfl, -⟩ | ⟨hd, rfl, -⟩ | ⟨hd, c, -, rfl, -⟩
  · rw [hd]
    exact hsummary
  · simp [hd]
  · simp [hd]
  · simp [hd]

/-- Values that an operator of codecs accepts are read by a codec. -/
theorem coded_of_checkInput (hsummary : v.top.valueType = .summary ↔ v.top.format = .summary)
    (haccepts : d.accepts = Registry.decodable) (h : d.checkInput v.top.valueType = .ok ()) :
    ∃ c, v.top.format = .coded c := by
  cases hformat : v.top.format with
  | coded c => exact ⟨c, rfl⟩
  | summary =>
      rw [Descriptor.checkInput, haccepts, hsummary.2 hformat] at h
      cases h

/-- **An operator that was put on does not fail** on entries that the view below reads, and makes
entries that the view reads. -/
theorem takes_of_stack {priority : Nat}
    (hsummary : v.top.valueType = .summary ↔ v.top.format = .summary)
    (hoptions : options.NamesNoCodec)
    (hcopy : id = "key_to_key" → asked = some v.schema.keyCodec)
    (hd : (Registry.builtin digest order).descriptor id = .ok d)
    (hinput : d.checkInput v.top.valueType = .ok ())
    (hformat : v.outputFormat d (v.inputOptions options) asked = .ok (format, made))
    (hbuild : (Registry.builtin digest order).build ⟨id, priority, made⟩ = .ok operator) :
    operator.Takes (Entry.Readable v.schema.keyCodec v.top.format)
      (Entry.Readable v.schema.keyCodec format) := by
  obtain ⟨r, hfind, rfl⟩ := Registry.descriptor_eq_ok hd
  obtain ⟨r', hfind', hr⟩ := Registry.build_eq_ok hbuild
  obtain rfl : r = r' := Option.some.inj (hfind.symm.trans hfind')
  obtain ⟨hmem, hid⟩ := Registry.find?_eq_some hfind
  obtain ⟨hkey, hvalue, houtput⟩ := get?_inputOptions (v := v) hoptions
  have hcoded := fun haccepts => coded_of_checkInput hsummary haccepts hinput
  rw [Registry.builtin_eq] at hmem
  simp only [List.mem_cons, List.not_mem_nil, or_false] at hmem
  -- one operator after the other: all but the copy of keys get the codecs of the view as they are
  rcases hmem with rfl | rfl | rfl | rfl | rfl | rfl | rfl
  · obtain ⟨rfl, rfl⟩ := Prod.mk.inj (Except.ok.inj hformat)
    obtain ⟨c, hc⟩ := hcoded rfl
    rw [hc]
    exact takes_checksumAll hr (Options.codec_of_get? hkey) (Options.codec_of_get? (hvalue c hc))
  · obtain ⟨rfl, rfl⟩ := Prod.mk.inj (Except.ok.inj hformat)
    exact takes_countAll (v.inputOptions options) hr
  · -- keys are copied by the codec that wrote them, which can write them again.
    have hcodec : v.outputCodec (v.inputOptions options) asked = .ok v.schema.keyCodec := by
      rw [outputCodec, houtput, hcopy hid.symm]
      rfl
    have hmade : v.outputFormat ⟨"key_to_key", .transform, [], some .typed⟩
        (v.inputOptions options) asked = .ok (.coded v.schema.keyCodec,
          (v.inputOptions options).set Options.valueOutputCodec v.schema.keyCodec.id) := by
      simp only [outputFormat, hcodec]
      rfl
    obtain ⟨rfl, rfl⟩ := Prod.mk.inj (Except.ok.inj (hmade.symm.trans hformat))
    refine takes_keyCopy hr (Options.codec_of_get? ?_) ?_
    · rw [Options.get?_set, if_neg (by decide), hkey]
    · rw [Options.get?_set, if_pos rfl]
  · obtain ⟨rfl, rfl⟩ := Prod.mk.inj (Except.ok.inj hformat)
    obtain ⟨c, hc⟩ := hcoded rfl
    rw [hc]
    exact takes_patternFilter hr (Options.codec_of_get? hkey) (Options.codec_of_get? (hvalue c hc))
  · obtain ⟨rfl, rfl⟩ := Prod.mk.inj (Except.ok.inj hformat)
    obtain ⟨c, hc⟩ := hcoded rfl
    rw [hc]
    exact takes_rowSummary hr (Options.codec_of_get? (hvalue c hc))
  · obtain ⟨rfl, rfl⟩ := Prod.mk.inj (Except.ok.inj hformat)
    exact takes_sampling hr
  · obtain ⟨rfl, rfl⟩ := Prod.mk.inj (Except.ok.inj hformat)
    obtain ⟨c, hc⟩ := hcoded rfl
    rw [hc]
    exact takes_summarizeAll hr (Options.codec_of_get? (hvalue c hc))

/-! ### Piles of operators -/

/-- An operator on top of a pile takes what the pile makes. -/
theorem takes_append {registry : Registry} {settings : List Setting} {setting : Setting}
    {P Q R : Entry → Prop} (hbelow : Operator.Takes (Store.runOperators registry settings) P Q)
    (hbuild : registry.build setting = .ok operator) (h : operator.Takes Q R) :
    Operator.Takes (Store.runOperators registry (settings ++ [setting])) P R := by
  intro entries hentries
  obtain ⟨made, hmade, hQ⟩ := hbelow entries hentries
  obtain ⟨out, hout, hR⟩ := h made hQ
  refine ⟨out, ?_, hR⟩
  rw [Store.runOperators_append, hmade]
  simp only [Except.bind, Store.runOperators, hbuild, hout]

/-! ### The invariant -/

/-- **What holds of every view that was derived without options for its operators.**  The value type
says how values are read, and the operators never fail on entries that the map reads: what they make
of them is read by the view. -/
structure WellTyped (digest : Bytes → Bytes) (order : FieldOrder) (v : View) : Prop where
  sound : v.Sound
  registry : v.schema.registry = .builtin digest order
  summary_iff : v.top.valueType = .summary ↔ v.top.format = .summary
  takes : v.kind ≠ .empty →
    Operator.Takes (Store.runOperators (.builtin digest order) v.settings)
      (Entry.Readable v.schema.keyCodec (.coded v.schema.valueCodec))
      (Entry.Readable v.schema.keyCodec v.top.format)

theorem WellTyped.base {schema : Schema} (hregistry : schema.registry = .builtin digest order) :
    (View.base schema).WellTyped digest order where
  sound := Sound.base schema
  registry := hregistry
  summary_iff := by simp [View.base]
  takes _ entries hentries := ⟨entries, rfl, hentries⟩

theorem WellTyped.restrict (h : v.WellTyped digest order) (range : KeyRange) :
    (v.restrict range).WellTyped digest order := by
  refine ⟨h.sound.restrict range, ?_, ?_, fun hempty => ?_⟩
  · rw [schema_restrict, h.registry]
  · rw [valueType_restrict, format_restrict, h.summary_iff]
  · rw [schema_restrict, format_restrict, settings_restrict]
    refine h.takes fun hv => hempty ?_
    rw [kind_restrict, if_pos (Or.inl hv)]

theorem WellTyped.stack {mode : ScanMode} (h : v.WellTyped digest order)
    (hoptions : options.NamesNoCodec) (hcopy : id = "key_to_key" → asked = some v.schema.keyCodec)
    (hstack : v.stack id options asked mode = .ok w) : w.WellTyped digest order := by
  obtain ⟨d, format, made, operator, hd, hinput, hformat, hbuild, rfl⟩ := stack_eq_ok hstack
  rw [h.registry] at hbuild
  refine ⟨h.sound.operator hd made format mode, h.registry,
    summary_iff_of_outputFormat h.summary_iff hformat, ?_⟩
  -- on an empty view nothing runs, so only what was not empty below has to be looked at
  intro hempty
  have hv : v.kind ≠ .empty := fun hv => hempty (by rw [kind_child, if_pos hv])
  have hsetting : (v.operatorLayer d ⟨id, v.top.nextPriority, made⟩ format mode).setting =
      some ⟨id, v.top.nextPriority, made⟩ := by
    simp [operatorLayer, isEmptyView, hv]
  rw [settings_child, hsetting]
  rw [h.registry] at hd
  exact takes_append (h.takes hv) hbuild
    (takes_of_stack h.summary_iff hoptions hcopy hd hinput hformat hbuild)

/-! ### Derivations -/

/-- The derivation gives an operator no options of the caller's own. -/
def Step.Plain : Step → Prop
  | .derive .. | .deriveMulti .. => False
  | .aggregateView id options => id ∈ ["count", "checksum", "stats"] ∧ options = []
  | _ => True

theorem namesNoCodec_nil : Options.NamesNoCodec [] := ⟨rfl, rfl, rfl⟩

theorem namesNoCodec_toOptions (s : Sample) : s.toOptions.NamesNoCodec := by
  refine Options.namesNoCodec_of_forall ?_
  intro option hoption
  simp only [Sample.toOptions, List.mem_append, List.mem_cons, List.not_mem_nil, or_false,
    Option.mem_toList, Option.map_eq_some_iff] at hoption
  rcases hoption with ((rfl | rfl | rfl) | ⟨n, -, rfl⟩) | ⟨n, -, rfl⟩ <;> dsimp only <;> decide

theorem namesNoCodec_patterns (keyPattern valuePattern : Option String) :
    Options.NamesNoCodec ((keyPattern.map fun p => (PatternFilter.keyOption, p)).toList ++
      (valuePattern.map fun p => (PatternFilter.valueOption, p)).toList) := by
  refine Options.namesNoCodec_of_forall ?_
  intro option hoption
  simp only [List.mem_append, Option.mem_toList, Option.map_eq_some_iff] at hoption
  rcases hoption with ⟨p, -, rfl⟩ | ⟨p, -, rfl⟩ <;> dsimp only <;> decide

/-- **One derivation keeps a view well-typed.** -/
theorem WellTyped.step {step : Step} (h : v.WellTyped digest order) (hstep : step.Plain)
    (happly : step.apply v = .ok w) : w.WellTyped digest order := by
  cases step with
  | derive id options asked => cases hstep
  | deriveMulti id options asked => cases hstep
  | sample s => exact h.stack (namesNoCodec_toOptions s) (fun hid => absurd hid (by decide)) happly
  | during fromTimestamp toTimestamp =>
      exact h.stack (namesNoCodec_toOptions _) (fun hid => absurd hid (by decide)) happly
  | matching keyPattern valuePattern =>
      exact h.stack (namesNoCodec_patterns _ _) (fun hid => absurd hid (by decide)) happly
  | keyToKey => exact h.stack namesNoCodec_nil (fun _ => rfl) happly
  | rowStats => exact h.stack namesNoCodec_nil (fun hid => absurd hid (by decide)) happly
  | aggregateView id options =>
      obtain ⟨hid, rfl⟩ := hstep
      refine h.stack namesNoCodec_nil (fun hcopy => ?_) (aggregateView_eq_ok happly).1
      subst hcopy
      exact absurd hid (by decide)
  | restrict _ | subMap _ _ | headMap _ | tailMap _ =>
      obtain ⟨range, rfl⟩ := Step.exists_restrict happly trivial
      exact h.restrict range

/-- **Every derived view is well-typed.** -/
theorem WellTyped.derived {steps : List Step} (h : v.WellTyped digest order)
    (hsteps : ∀ step ∈ steps, step.Plain) (hrun : v.derived steps = .ok w) :
    w.WellTyped digest order := by
  induction steps generalizing v with
  | nil =>
      obtain rfl : v = w := Except.ok.inj hrun
      exact h
  | cons step steps ih =>
      obtain ⟨u, hu, hrun⟩ := bind_eq_ok.1 hrun
      rw [List.forall_mem_cons] at hsteps
      exact ih (h.step hsteps.1 hu) hsteps.2 hrun

/-! ### Scans -/

variable {store : Store}

/-- What a partition returns of its rows is among all that the store holds. -/
theorem mem_entries_contents {p : Partition} (hp : p ∈ store.partitions) {range : KeyRange}
    {mode : ScanMode} {e : Entry} (he : e ∈ p.rows.entries range mode) :
    e ∈ store.contents.entries KeyRange.full .allVersions := by
  obtain ⟨row, hrow, he⟩ := List.mem_flatMap.1 he
  have hmem : row ∈ store.contents := List.mem_flatMap.2 ⟨p, hp, (List.mem_filter.1 hrow).1⟩
  refine List.mem_flatMap.2 ⟨row, List.mem_filter.2 ⟨hmem, rfl⟩, ?_⟩
  cases mode with
  | latest =>
      obtain rfl := List.mem_singleton.1 he
      exact List.mem_cons_self ..
  | allVersions => exact he

/-- Every operator of a view is known to the registry. -/
theorem WellTyped.mem_ids (h : v.WellTyped digest order) :
    ∀ s ∈ v.settings, s.id ∈ (Registry.builtin digest order).ids := by
  intro s hs
  obtain ⟨layer, hlayer, hsetting⟩ := List.mem_filterMap.1 hs
  obtain ⟨d, hd, -⟩ := h.sound.operators layer (List.mem_reverse.1 hlayer) s hsetting
  rw [h.registry] at hd
  obtain ⟨r, hfind, -⟩ := Registry.descriptor_eq_ok hd
  obtain ⟨hmem, hid⟩ := Registry.find?_eq_some hfind
  exact List.mem_map.2 ⟨r, hmem, hid⟩

/-- **A scan of a well-typed view does not fail**, and the view reads what it returns. -/
theorem WellTyped.scan (h : v.WellTyped digest order)
    (hregistry : store.registry = .builtin digest order)
    (hinstalled : ∀ p ∈ store.partitions, ∀ id ∈ (Registry.builtin digest order).ids,
      p.runs id = true)
    (hreadable : ∀ e ∈ store.contents.entries KeyRange.full .allVersions,
      e.Readable v.schema.keyCodec (.coded v.schema.valueCodec)) (mode : ScanMode) :
    ∃ entries : List Entry, v.scan store none mode = .ok (entries.map .ok) ∧
      ∀ e ∈ entries, e.Readable v.schema.keyCodec v.top.format := by
  by_cases hempty : v.kind = .empty
  · exact ⟨[], h.sound.scan_of_empty hempty none, by simp⟩
  · obtain ⟨entries, hscan, hgood⟩ : ∃ entries : List Entry,
        store.scan (v.scanner mode) = entries.map .ok ∧
          ∀ e ∈ entries, e.Readable v.schema.keyCodec v.top.format := by
      refine Store.exists_scan h.sound.searchable ?_ ?_
      · intro p hp s hs
        exact hinstalled p hp s.id (h.mem_ids s hs)
      · intro p hp
        rw [hregistry]
        exact h.takes hempty _ fun e he => hreadable e (mem_entries_contents hp he)
    refine ⟨entries, ?_, hgood⟩
    rw [h.sound.scan_eq hempty, hscan, map_ofItem_ok]

/-- The view decodes what it reads. -/
theorem exists_decodeEntry {e : Entry} (h : e.Readable v.schema.keyCodec v.top.format) :
    ∃ decoded, v.decodeEntry e = .ok decoded := by
  obtain ⟨key, hkey, -⟩ := h.key
  obtain ⟨value, hvalue⟩ := h.value
  refine ⟨⟨key, value, e.timestamp⟩, ?_⟩
  rw [decodeEntry, decodeKey, hkey, decodeValue, hvalue]
  rfl

/-- An operator that does not take the values of the view is refused when it is put on. -/
theorem stack_eq_error {mode : ScanMode} (hd : v.schema.registry.descriptor id = .ok d)
    (haccepts : d.accepts ≠ []) (hinput : v.top.valueType ∉ d.accepts) :
    v.stack id options asked mode =
      .error (.ofOperatorError (.incompatibleInput d.id v.top.valueType)) := by
  have hcheck : d.checkInput v.top.valueType =
      .error (.incompatibleInput d.id v.top.valueType) := by
    rw [Descriptor.checkInput, if_neg]
    simp [haccepts, hinput]
  rw [stack, hd]
  simp only [hcheck, Except.mapError, bind, Except.bind]

/-- **Well-typed stacks do not go wrong.**  Map and store know the same operators, every partition
can run all of them, and all that the store holds was written through the map and can be read by
its codecs.  Every key was written of a value whose sizes its codec can announce, as the limits of a
store see to (`Schema.Wrote.announcesKey`, `Store.length_key_run`).  Then a view that is derived in
any way without options of the caller's own can be scanned in either mode: nothing fails, and the
view decodes every entry that it returns.  Its value type says how its values are read, and an
operator that does not take values of that type is refused when it is put on. -/
theorem well_typed (digest : Bytes → Bytes) (order : FieldOrder) (store : Store) (schema : Schema)
    (hstore : store.registry = .builtin digest order)
    (hschema : schema.registry = .builtin digest order)
    (hinstalled : ∀ p ∈ store.partitions, ∀ id ∈ (Registry.builtin digest order).ids,
      p.runs id = true)
    (hwrote : ∀ e ∈ store.contents.entries KeyRange.full .allVersions, schema.Wrote e.key e.value)
    (hsizes : ∀ e ∈ store.contents.entries KeyRange.full .allVersions, schema.AnnouncesKey e.key)
    (steps : List Step) (hsteps : ∀ step ∈ steps, step.Plain) (v : View)
    (hview : (View.base schema).derived steps = .ok v) :
    (∀ mode, ∃ entries : List Entry, v.scan store none mode = .ok (entries.map .ok) ∧
      ∀ e ∈ entries, ∃ decoded, v.decodeEntry e = .ok decoded) ∧
    (v.top.valueType = .summary ↔ v.top.format = .summary) ∧
    ∀ id d options asked mode, (Registry.builtin digest order).descriptor id = .ok d →
      d.accepts ≠ [] → v.top.valueType ∉ d.accepts →
      v.stack id options asked mode =
        .error (.ofOperatorError (.incompatibleInput id v.top.valueType)) := by
  have h : v.WellTyped digest order := (WellTyped.base hschema).derived hsteps hview
  have hkept : v.schema = schema := schema_derived hview
  have hreadable : ∀ e ∈ store.contents.entries KeyRange.full .allVersions,
      e.Readable v.schema.keyCodec (.coded v.schema.valueCodec) := by
    intro e he
    rw [hkept]
    exact (hwrote e he).readable (hsizes e he)
  refine ⟨?_, h.summary_iff, ?_⟩
  · intro mode
    obtain ⟨entries, hscan, hentries⟩ := h.scan hstore hinstalled hreadable mode
    exact ⟨entries, hscan, fun e he => exists_decodeEntry (hentries e he)⟩
  · intro id d options asked mode hd haccepts hinput
    obtain ⟨r, hfind, rfl⟩ := Registry.descriptor_eq_ok hd
    obtain ⟨-, rfl⟩ := Registry.find?_eq_some hfind
    exact stack_eq_error (h.registry ▸ hd) haccepts hinput

/-- Summaries of copied keys, over two partitions: they are read, and no pattern is sought in
them. -/
theorem well_typed_rowStats :
    let schema : Schema := ⟨.fixedPoint, .long, Settings.standard, .builtin Sha256.digest⟩
    let one := Codec.FixedPoint.encode (.int 1)
    let two := Codec.FixedPoint.encode (.int 2)
    let store := (Store.ofLayout ⟨[two], Limits.standard, none⟩ (.builtin Sha256.digest)).run
      [.writeBatch [.put two (Codec.LongWord.write 7), .put one (Codec.LongWord.write 8)]]
    ∃ v, (View.base schema).derived [.keyToKey, .rowStats] = .ok v ∧
      (∃ entries : List Entry, v.scan store none .allVersions = .ok (entries.map .ok) ∧
        ∀ e ∈ entries, ∃ decoded, v.decodeEntry e = .ok decoded) ∧
      v.top.format = .summary ∧
      v.matching (some "a") none =
        .error (.ofOperatorError (.incompatibleInput "regex_filter" .summary)) := by
  intro schema one two store
  let copied : Layer :=
    ⟨.transformed, some ⟨"key_to_key", firstPriority, [("key_codec", "fixed_point"),
      ("value_input_codec", "long"), ("value_output_codec", "fixed_point")]⟩,
      KeyRange.full, .latest, .typed, .coded .fixedPoint, firstPriority + 1⟩
  let summarized : Layer :=
    ⟨.transformed, some ⟨"row_stats", firstPriority + 1, [("key_codec", "fixed_point"),
      ("value_input_codec", "fixed_point")]⟩,
      KeyRange.full, .allVersions, .summary, .summary, firstPriority + 2⟩
  let v : View := ((View.base schema).child copied).child summarized
  have hview : (View.base schema).derived [.keyToKey, .rowStats] = .ok v := by
    have hone : (View.base schema).keyToKey = .ok ((View.base schema).child copied) := by
      simp only [schema, copied, Registry.builtin_eq]
      rfl
    have htwo : ((View.base schema).child copied).rowStats = .ok v := by
      simp only [schema, copied, v, summarized, Registry.builtin_eq]
      rfl
    show (View.base schema).keyToKey.bind (fun u => u.rowStats.bind _) = _
    rw [hone]
    show ((View.base schema).child copied).rowStats.bind _ = _
    rw [htwo]
    rfl
  have hinstalled : ∀ p ∈ store.partitions, ∀ name ∈ (Registry.builtin Sha256.digest).ids,
      p.runs name = true := by
    have hpartitions : store.partitions =
        [⟨none, some two, [(one, ⟨⟨Codec.LongWord.write 8, 2⟩, []⟩)],
            (Registry.builtin Sha256.digest).ids⟩,
          ⟨some two, none, [(two, ⟨⟨Codec.LongWord.write 7, 1⟩, []⟩)],
            (Registry.builtin Sha256.digest).ids⟩] := rfl
    intro p hp name hname
    rw [hpartitions] at hp
    simp only [List.mem_cons, List.not_mem_nil, or_false] at hp
    rcases hp with rfl | rfl <;> simpa [Partition.runs] using hname
  have hcalls : ∀ batch, StoreCall.writeBatch batch ∈ [StoreCall.writeBatch
      [.put two (Codec.LongWord.write 7), .put one (Codec.LongWord.write 8)]] →
      ∀ key value, Mutation.put key value ∈ batch →
        schema.Wrote key value := by
    intro batch hbatch key value hput
    obtain rfl := StoreCall.writeBatch.inj (List.mem_singleton.1 hbatch)
    simp only [List.mem_cons, Mutation.put.injEq, List.not_mem_nil, or_false] at hput
    rcases hput with ⟨rfl, rfl⟩ | ⟨rfl, rfl⟩
    · exact ⟨⟨.int 2, .int 7, rfl⟩, ⟨.int 2, rfl⟩, ⟨.int 7, rfl⟩⟩
    · exact ⟨⟨.int 1, .int 8, rfl⟩, ⟨.int 1, rfl⟩, ⟨.int 8, rfl⟩⟩
  have hwrote : ∀ e ∈ store.contents.entries KeyRange.full .allVersions,
      schema.Wrote e.key e.value :=
    Store.forall_entries_run _ _ _ (P := schema.Wrote)
      (fun batch hbatch _ => hcalls batch hbatch) _ _
  have hsizes : ∀ e ∈ store.contents.entries KeyRange.full .allVersions,
      schema.AnnouncesKey e.key := by
    intro e he
    exact (hwrote e he).announcesKey ((Store.length_key_run _ _ _ _ _ e he).trans_lt (by decide))
  obtain ⟨hscan, -, hrefused⟩ :=
    well_typed Sha256.digest .asRead store schema rfl rfl hinstalled hwrote hsizes
      [.keyToKey, .rowStats] (by simp [Step.Plain]) v hview
  have hfilter : (Registry.builtin Sha256.digest).descriptor "regex_filter" =
      .ok ⟨"regex_filter", .filter, Registry.decodable, none⟩ := by
    rw [Registry.builtin_eq]
    rfl
  exact ⟨v, hview, hscan .allVersions, rfl,
    hrefused "regex_filter" _ _ none _ hfilter (by decide) (by decide)⟩

end View

end Strata
