/-
**What a chain of derivations compiles to.**

A view remembers every derivation that led to it.  As long as it is not empty, its scanner has the
operators that were put on, in the order in which they were, under consecutive priorities, and the
range in which all restrictions agree.  It becomes empty when a restriction does not meet the range
that was left, and stays empty from then on: operators put on it are not kept and use up no
priority.

* `View.Step.operatorId?`, `View.Step.range?`, `View.Step.apply_spec` — what a derivation adds;
* `View.Chain`, `View.Chain.concat`, `View.Chain.derived` — **what all derivations have added**;
* `View.kind_eq_empty_iff` — **when a view is empty**;
* `View.derived_of_empty`, `View.Sound.size_of_empty`, `View.Sound.checksum_of_empty` — what is
  derived from an empty view;
* `View.chain_compiles` — **what a view compiles to**.
-/

import Strata.Proofs.View.AggregateReads
import Strata.Proofs.View.Fallback
import Strata.Proofs.View.WellTyped

set_option relaxedAutoImplicit false
set_option autoImplicit false

namespace Strata.View

variable {v w : View} {step : Step} {steps : List Step}

/-! ### What a derivation adds -/

/-- The operator that a derivation puts on. -/
def Step.operatorId? : Step → Option String
  | .restrict _ | .subMap _ _ | .headMap _ | .tailMap _ => none
  | .sample _ | .during _ _ => some Sample.operatorId
  | .matching _ _ => some PatternFilter.operatorId
  | .keyToKey => some "key_to_key"
  | .rowStats => some "row_stats"
  | .derive id _ _ | .deriveMulti id _ _ | .aggregateView id _ => some id

/-- The range to which a derivation restricts a view whose keys a codec writes. -/
def Step.range? (codec : Codec) : Step → Option KeyRange
  | .restrict range => some range
  | .subMap low high =>
    match codec.encode low, codec.encode high with
    | .ok low, .ok high => some (KeyRange.halfOpen (some low) (some high))
    | _, _ => none
  | .headMap high => (codec.encode high).toOption.map fun high => KeyRange.halfOpen none (some high)
  | .tailMap low => (codec.encode low).toOption.map fun low => KeyRange.halfOpen (some low) none
  | _ => none

theorem encodeKey_eq_ok {key : Value} {bytes : Bytes} (h : v.encodeKey key = .ok bytes) :
    v.schema.keyCodec.encode key = .ok bytes := mapError_eq_ok.1 h

/-- A derivation restricts the view to its range, or puts its operator on. -/
theorem Step.apply_spec (h : step.apply v = .ok w) :
    (∃ range, step.range? v.schema.keyCodec = some range ∧ step.operatorId? = none ∧
        w = v.restrict range) ∨
      ∃ id options asked mode, step.range? v.schema.keyCodec = none ∧
        step.operatorId? = some id ∧ v.stack id options asked mode = .ok w := by
  cases step with
  | restrict range => exact Or.inl ⟨range, rfl, rfl, (Except.ok.inj h).symm⟩
  | subMap low high =>
      obtain ⟨low, hlow, h⟩ := bind_eq_ok.1 h
      obtain ⟨high, hhigh, h⟩ := bind_eq_ok.1 h
      refine Or.inl ⟨_, ?_, rfl, (Except.ok.inj h).symm⟩
      simp only [Step.range?, encodeKey_eq_ok hlow, encodeKey_eq_ok hhigh]
  | headMap high =>
      obtain ⟨high, hhigh, h⟩ := bind_eq_ok.1 h
      refine Or.inl ⟨_, ?_, rfl, (Except.ok.inj h).symm⟩
      simp only [Step.range?, encodeKey_eq_ok hhigh, Except.toOption, Option.map_some]
  | tailMap low =>
      obtain ⟨low, hlow, h⟩ := bind_eq_ok.1 h
      refine Or.inl ⟨_, ?_, rfl, (Except.ok.inj h).symm⟩
      simp only [Step.range?, encodeKey_eq_ok hlow, Except.toOption, Option.map_some]
  | aggregateView id options =>
      exact Or.inr ⟨_, _, _, _, rfl, rfl, (aggregateView_eq_ok h).1⟩
  | _ => exact Or.inr ⟨_, _, _, _, rfl, rfl, h⟩

/-- An operator is put on under the next priority, unless the view is empty. -/
theorem stack_spec {id : String} {options : Options} {asked : Option Codec} {mode : ScanMode}
    (h : v.stack id options asked mode = .ok w) :
    w.schema = v.schema ∧ w.top.range = v.top.range ∧
      ((v.kind = .empty ∧ w.kind = .empty ∧ w.settings = v.settings ∧
          w.top.nextPriority = v.top.nextPriority) ∨
        (v.kind ≠ .empty ∧ w.kind ≠ .empty ∧
          (∃ made, w.settings = v.settings ++ [⟨id, v.top.nextPriority, made⟩]) ∧
          w.top.nextPriority = v.top.nextPriority + 1)) := by
  obtain ⟨d, format, made, operator, -, -, -, hbuild, rfl⟩ := stack_eq_ok h
  refine ⟨rfl, rfl, ?_⟩
  rcases operatorLayer_cases v d format mode hbuild with ⟨hempty, hkind, hsetting⟩ | htop
  · refine Or.inl ⟨hempty, hkind, ?_, ?_⟩
    · rw [settings_child]
      simp [operatorLayer, isEmptyView, hempty]
    · simp [child, operatorLayer, isEmptyView, hempty]
  · refine Or.inr ⟨htop.below, htop.above, ⟨made, htop.settings⟩, ?_⟩
    simp [child, operatorLayer, isEmptyView, htop.below]

/-! ### What all derivations have added -/

theorem derived_append (v : View) (before after : List Step) :
    v.derived (before ++ after) = (v.derived before).bind fun u => u.derived after :=
  List.foldlM_append

theorem derived_singleton (v : View) (step : Step) : v.derived [step] = step.apply v := by
  rw [derived, List.foldlM_cons]
  cases step.apply v <;> rfl

/-- The last derivation of several. -/
theorem derived_concat (h : v.derived (steps ++ [step]) = .ok w) :
    ∃ u, v.derived steps = .ok u ∧ step.apply u = .ok w := by
  rw [derived_append] at h
  obtain ⟨u, hu, h⟩ := bind_eq_ok.1 h
  exact ⟨u, hu, (derived_singleton u step).symm.trans h⟩

/-- **What derivations add up to.**  The operators have consecutive priorities; those of a view that
is not empty are the ones that were put on, and its range is the one in which all restrictions
agree. -/
structure Chain (steps : List Step) (v : View) : Prop where
  nextPriority : v.top.nextPriority = firstPriority + v.settings.length
  priorities : v.priorities = List.range' firstPriority v.settings.length
  length_le : v.settings.length ≤ steps.length
  ids : v.kind ≠ .empty → v.settings.map (·.id) = steps.filterMap Step.operatorId?
  contains_iff : v.kind ≠ .empty → ∀ key, v.top.range.contains key = true ↔
    ∀ range ∈ steps.filterMap (Step.range? v.schema.keyCodec), range.contains key = true

theorem Chain.base (schema : Schema) : Chain [] (base schema) where
  nextPriority := rfl
  priorities := rfl
  length_le := Nat.le_refl 0
  ids _ := rfl
  contains_iff _ key := by simp [View.base]

/-- One more derivation. -/
theorem Chain.concat (h : Chain steps v) (hstep : step.apply v = .ok w) :
    Chain (steps ++ [step]) w := by
  rcases Step.apply_spec hstep with ⟨range, hrange, hid, rfl⟩ |
    ⟨id, options, asked, mode, hrange, hid, hstack⟩
  · -- a restriction changes the range only
    refine ⟨?_, ?_, ?_, ?_, ?_⟩
    · rw [nextPriority_restrict, settings_restrict, h.nextPriority]
    · rw [View.priorities, settings_restrict]
      exact h.priorities
    · rw [settings_restrict, List.length_append]
      exact h.length_le.trans (Nat.le_add_right _ _)
    · intro hkind
      rw [ne_eq, kind_restrict_eq_empty, not_or] at hkind
      rw [settings_restrict, List.filterMap_append, h.ids hkind.1]
      simp [hid]
    · intro hkind key
      rw [ne_eq, kind_restrict_eq_empty, not_or] at hkind
      obtain ⟨clipped, hclipped⟩ := Option.ne_none_iff_exists'.1 hkind.2
      rw [range_restrict hclipped, KeyRange.contains_of_intersect hclipped, schema_restrict,
        Bool.and_eq_true, h.contains_iff hkind.1, List.filterMap_append]
      simp [hrange, or_imp, forall_and]
  · obtain ⟨hschema, hkept, hcases⟩ := stack_spec hstack
    rcases hcases with ⟨hempty, hkind, hsettings, hnext⟩ |
      ⟨hempty, hkind, ⟨made, hsettings⟩, hnext⟩
    · -- nothing is added to an empty view
      refine ⟨?_, ?_, ?_, fun hne => absurd hkind hne, fun hne => absurd hkind hne⟩
      · rw [hnext, hsettings, h.nextPriority]
      · rw [View.priorities, hsettings]
        exact h.priorities
      · rw [hsettings, List.length_append]
        exact h.length_le.trans (Nat.le_add_right _ _)
    · refine ⟨?_, ?_, ?_, fun _ => ?_, fun _ key => ?_⟩
      · rw [hnext, hsettings, h.nextPriority, List.length_append, List.length_singleton,
          Nat.add_assoc]
      · have hpriorities : v.settings.map (·.priority) = _ := h.priorities
        rw [View.priorities, hsettings, List.map_append, hpriorities, List.length_append,
          List.length_singleton, List.range'_1_concat, h.nextPriority]
        rfl
      · rw [hsettings, List.length_append, List.length_append]
        exact Nat.add_le_add_right h.length_le 1
      · rw [hsettings, List.map_append, h.ids hempty, List.filterMap_append]
        simp [hid]
      · rw [hkept, hschema, h.contains_iff hempty, List.filterMap_append]
        simp [hrange]

/-- **Every derived view is what its derivations add up to.** -/
theorem Chain.derived {schema : Schema} (hview : (View.base schema).derived steps = .ok v) :
    Chain steps v := by
  induction steps using List.reverseRecOn generalizing v with
  | nil =>
      obtain rfl := Except.ok.inj hview
      exact Chain.base schema
  | append_singleton steps step ih =>
      obtain ⟨u, hu, hstep⟩ := derived_concat hview
      exact (ih hu).concat hstep

/-! ### Empty views -/

/-- **What is derived from an empty view is empty**, and nothing is put on it. -/
theorem derived_of_empty (hempty : v.kind = .empty) (hview : v.derived steps = .ok w) :
    w.kind = .empty ∧ w.settings = v.settings ∧ w.top.nextPriority = v.top.nextPriority := by
  refine derived_induction (P := fun w => w.kind = .empty ∧ w.settings = v.settings ∧
    w.top.nextPriority = v.top.nextPriority) ?_ ?_ ⟨hempty, rfl, rfl⟩ hview
  · rintro u range ⟨hkind, hsettings, hnext⟩
    rw [kind_restrict_eq_empty, settings_restrict, nextPriority_restrict]
    exact ⟨Or.inl hkind, hsettings, hnext⟩
  · rintro u id options asked mode w ⟨hkind, hsettings, hnext⟩ hstack
    obtain ⟨-, -, ⟨-, hkind', hsettings', hnext'⟩ | ⟨hne, -⟩⟩ := stack_spec hstack
    · exact ⟨hkind', hsettings'.trans hsettings, hnext'.trans hnext⟩
    · exact absurd hkind hne

/-- **A view is empty when a restriction did not meet the range reached so far.** -/
theorem kind_eq_empty_iff {schema : Schema} (hview : (View.base schema).derived steps = .ok v) :
    v.kind = .empty ↔ ∃ before step after u range, steps = before ++ step :: after ∧
      (View.base schema).derived before = .ok u ∧ step.range? schema.keyCodec = some range ∧
      u.top.range.intersect range = none := by
  constructor
  · intro hempty
    induction steps using List.reverseRecOn generalizing v with
    | nil =>
        obtain rfl := Except.ok.inj hview
        cases hempty
    | append_singleton steps step ih =>
        obtain ⟨u, hu, hstep⟩ := derived_concat hview
        -- the view was empty before the last derivation, or that one emptied it
        have hearlier (hkind : u.kind = .empty) : _ := ih hu hkind
        rcases Step.apply_spec hstep with ⟨range, hrange, -, rfl⟩ | ⟨_, _, _, _, -, -, hstack⟩
        · rcases (kind_restrict_eq_empty u range).1 hempty with hkind | hnone
          · obtain ⟨before, first, after, x, r, rfl, hx, hr, hnone⟩ := hearlier hkind
            exact ⟨before, first, after ++ [step], x, r, by simp, hx, hr, hnone⟩
          · rw [schema_derived hu] at hrange
            exact ⟨steps, step, [], u, range, rfl, hu, hrange, hnone⟩
        · obtain ⟨-, -, ⟨hkind, -⟩ | ⟨-, hne, -⟩⟩ := stack_spec hstack
          · obtain ⟨before, first, after, x, r, rfl, hx, hr, hnone⟩ := hearlier hkind
            exact ⟨before, first, after ++ [step], x, r, by simp, hx, hr, hnone⟩
          · exact absurd hempty hne
  · rintro ⟨before, step, after, u, range, rfl, hu, hrange, hnone⟩
    rw [derived_append, hu] at hview
    have hview : u.derived (step :: after) = .ok v := hview
    obtain ⟨x, hx, hafter⟩ := bind_eq_ok.1 hview
    refine (derived_of_empty ?_ hafter).1
    rcases Step.apply_spec hx with ⟨r, hr, -, rfl⟩ | ⟨_, _, _, _, hnorange, -, -⟩
    · rw [schema_derived hu] at hr
      obtain rfl : range = r := Option.some.inj (hrange.symm.trans hr)
      exact (kind_restrict_eq_empty u range).2 (Or.inr hnone)
    · rw [schema_derived hu] at hnorange
      cases hrange.symm.trans hnorange

section Empty

variable {store : Store} {digest : Bytes → Bytes} {order : FieldOrder}

/-- An aggregate of an empty view is that of no partitions. -/
theorem Sound.aggregate_of_view {α : Type} (h : v.Sound) (hempty : v.kind = .empty)
    {a : Aggregation α} (hview : v.aggregateView a.operatorId a.options = .ok w) :
    v.aggregate store a = .ok a.identity := by
  obtain ⟨hw, -, -, ⟨-, hkind, -⟩ | ⟨_, _, -, htop⟩⟩ := h.aggregateView_cases hview
  · exact aggregate_of_empty hw a hview hkind
  · exact absurd hempty htop.below

/-- Entries can always be counted. -/
theorem exists_aggregateView_count (hregistry : v.schema.registry = .builtin digest order) :
    ∃ made, v.aggregateView "count" [] = .ok made := by
  have hd : v.schema.registry.descriptor "count" = .ok ⟨"count", .aggregate, [], some .long⟩ := by
    rw [hregistry, Registry.builtin_eq]
    rfl
  have hbuild : v.schema.registry.build ⟨"count", v.top.nextPriority, v.inputOptions []⟩ =
      countAll (v.inputOptions []) := by
    rw [hregistry, Registry.builtin_eq]
    rfl
  exact ⟨_, aggregateView_of_build hd rfl rfl hbuild (by decide) rfl⟩

theorem Sound.size_of_empty (h : v.Sound) (hregistry : v.schema.registry = .builtin digest order)
    (hempty : v.kind = .empty) : v.size store = .ok 0 := by
  obtain ⟨made, hview⟩ := exists_aggregateView_count hregistry
  exact h.aggregate_of_view hempty hview

/-- The checksum needs values that a codec reads, even if there are none. -/
theorem Sound.checksum_of_empty (h : v.Sound)
    (hregistry : v.schema.registry = .builtin digest order) (hempty : v.kind = .empty)
    (haccepts : v.top.valueType ∈ Registry.decodable) :
    v.checksum store = .ok 0 := by
  have hd : v.schema.registry.descriptor "checksum" =
      .ok ⟨"checksum", .aggregate, Registry.decodable, some .long⟩ := by
    rw [hregistry, Registry.builtin_eq]
    rfl
  have hinput : (⟨"checksum", .aggregate, Registry.decodable, some .long⟩ : Descriptor).checkInput
      v.top.valueType = .ok () := by
    rw [Descriptor.checkInput, if_pos]
    simpa using Or.inr haccepts
  have hbuild : v.schema.registry.build ⟨"checksum", v.top.nextPriority, v.inputOptions []⟩ =
      checksumAll (v.inputOptions []) := by
    rw [hregistry, Registry.builtin_eq]
    rfl
  obtain ⟨hkey, hvalue, -⟩ := get?_inputOptions (v := v) namesNoCodec_nil
  have hvalueCodec : ∃ c, (v.inputOptions []).codec Options.valueInputCodec = .ok c := by
    cases hformat : v.top.format with
    | coded c => exact ⟨c, Options.codec_of_get? (hvalue c hformat)⟩
    | summary =>
        -- no codec is named, so there is the default one
        refine ⟨.fixedPoint, ?_⟩
        rw [inputOptions, hformat]
        rfl
  obtain ⟨valueCodec, hvalueCodec⟩ := hvalueCodec
  have hoperator : checksumAll (v.inputOptions []) = .ok _ :=
    bind_eq_ok.2 ⟨_, Options.codec_of_get? hkey, bind_eq_ok.2 ⟨_, hvalueCodec, rfl⟩⟩
  exact h.aggregate_of_view hempty
    (aggregateView_of_build hd hinput rfl (hbuild.trans hoperator) (by decide) rfl)

end Empty

/-! ### The whole chain -/

/-- **What a view compiles to.**  Unless it is empty, a view compiles in either mode to a scanner
with the operators of its chain, in the order of the derivations and under the priorities from the
first one on, and with a range, not empty, of the keys that all restrictions contain.  It is empty
exactly when one of the restrictions did not meet the range reached so far.  What is derived from an
empty view is empty, puts no operator on, uses up no priority, and has no entries.  The priorities
are at most as many as the derivations. -/
theorem chain_compiles (schema : Schema) (steps : List Step) (v : View)
    (hview : (View.base schema).derived steps = .ok v) :
    (v.kind ≠ .empty → ∀ mode, ∃ s, v.scanner? mode = .ok (some s) ∧ s.mode = mode ∧
      s.settings = v.settings ∧
      s.settings.map (·.id) = steps.filterMap Step.operatorId? ∧
      s.settings.map (·.priority) = List.range' firstPriority s.settings.length ∧
      s.range.isEmpty = false ∧
      ∀ key, s.range.contains key = true ↔
        ∀ range ∈ steps.filterMap (Step.range? schema.keyCodec), range.contains key = true) ∧
    (v.kind = .empty ↔ ∃ before step after u range, steps = before ++ step :: after ∧
      (View.base schema).derived before = .ok u ∧ step.range? schema.keyCodec = some range ∧
      u.top.range.intersect range = none) ∧
    (v.kind = .empty → ∀ (more : List Step) (w : View), v.derived more = .ok w →
      w.kind = .empty ∧ w.settings = v.settings ∧ w.top.nextPriority = v.top.nextPriority ∧
      (∀ store mode, w.scan store none mode = .ok []) ∧
      ∀ digest order, schema.registry = .builtin digest order → ∀ store,
        w.size store = .ok 0 ∧
        (w.top.valueType ∈ Registry.decodable → w.checksum store = .ok 0)) ∧
    v.top.nextPriority = firstPriority + v.settings.length ∧ v.settings.length ≤ steps.length := by
  have hsound : v.Sound := (Sound.base schema).derived hview
  have hchain : Chain steps v := Chain.derived hview
  refine ⟨?_, kind_eq_empty_iff hview, ?_, hchain.nextPriority, hchain.length_le⟩
  · intro hkind mode
    refine ⟨v.scanner mode, ?_, rfl, rfl, hchain.ids hkind, hchain.priorities,
      hsound.searchable, ?_⟩
    · rw [hsound.scanner?_eq, if_neg hkind]
    · have hrange := hchain.contains_iff hkind
      rw [schema_derived hview] at hrange
      exact hrange
  · intro hempty more w hmore
    have hw : w.Sound := hsound.derived hmore
    obtain ⟨hkind, hsettings, hnext⟩ := derived_of_empty hempty hmore
    refine ⟨hkind, hsettings, hnext, fun store mode => hw.scan_of_empty hkind none, ?_⟩
    intro digest order hdigest store
    have hregistry : w.schema.registry = .builtin digest order := by
      rw [schema_derived hmore, schema_derived hview]
      exact hdigest
    exact ⟨hw.size_of_empty hregistry hkind, hw.checksum_of_empty hregistry hkind⟩

/-- Two operators around a restriction, and the same after a restriction that leaves nothing. -/
theorem chain_compiles_restricted :
    let schema : Schema := ⟨.long, .long, Settings.standard, .builtin id⟩
    let low := KeyRange.halfOpen none (some [1])
    let high := KeyRange.halfOpen (some [1]) none
    (∃ v s, (View.base schema).derived [.keyToKey, .restrict low, .rowStats] = .ok v ∧
      v.scanner? .allVersions = .ok (some s) ∧ s.settings.map (·.priority) = [100, 101] ∧
      s.range.contains [0] = true ∧ s.range.contains [1] = false) ∧
    ∃ v, (View.base schema).derived [.restrict low, .restrict high, .keyToKey] = .ok v ∧
      v.kind = .empty ∧ v.top.nextPriority = 100 ∧ ∀ store, v.size store = .ok 0 := by
  intro schema low high
  constructor
  · obtain ⟨v, hview, hkind⟩ : ∃ v,
        (View.base schema).derived [.keyToKey, .restrict low, .rowStats] = .ok v ∧
          v.kind = .transformed := by
      simp only [schema, Registry.builtin_eq]
      exact ⟨_, rfl, rfl⟩
    obtain ⟨hcompiles, -⟩ := chain_compiles schema _ v hview
    obtain ⟨s, hs, -, -, hids, hpriorities, -, hrange⟩ := hcompiles (by simp [hkind]) .allVersions
    have hlength : s.settings.length = 2 :=
      (List.length_map _).symm.trans (congrArg List.length hids)
    refine ⟨v, s, hview, hs, ?_, ?_, ?_⟩
    · rw [hpriorities, hlength]
      rfl
    · exact (hrange [0]).2 (by simp [Step.range?]; decide)
    · refine Bool.eq_false_iff.2 fun hin => ?_
      have := (hrange [1]).1 hin low (by simp [Step.range?])
      cases this
  · obtain ⟨v, hview, hkind, hnext⟩ : ∃ v,
        (View.base schema).derived [.restrict low, .restrict high, .keyToKey] = .ok v ∧
          v.kind = .empty ∧ v.top.nextPriority = 100 := by
      simp only [schema, Registry.builtin_eq]
      exact ⟨_, rfl, rfl, rfl⟩
    obtain ⟨-, -, hempty, -⟩ := chain_compiles schema _ v hview
    obtain ⟨-, -, -, -, hreads⟩ := hempty hkind [] v rfl
    exact ⟨v, hview, hkind, hnext, fun store => (hreads id .asRead rfl store).1⟩

end Strata.View
