/-
**What derived views compile to.**

However a view was derived from the map, a scan of it is compiled from its top layer and its
operators alone: from the range that the last restriction left, and from the operators of all layers
in the order in which they were put on.  Installing an operator never fails, for its priority is
above those of the operators below it.  A view under an empty one compiles to nothing.

* `View.Step`, `View.Step.apply`, `View.derived` — derivations, and views derived step by step;
* `View.stack_eq_ok`, `View.stack_of_build` — what putting an operator on requires and makes;
* `View.Sound`, `View.Sound.derived` — **the invariant of derived views**;
* `View.kind_derived_ne_base` — what was derived is not the map itself;
* `View.operatorLayer_cases`, `View.aggregateView_of_build`, `View.Sound.aggregateView_cases` — what
  an operator puts on top;
* `View.Sound.scan_eq` — a scan of a view is a scan of the store;
* `View.Sound.scan_restrict` — reading part of a view is reading its restriction.
-/

import Strata.Proofs.Operator.KeyLocal
import Strata.Proofs.Store.Scan
import Strata.View.Read

set_option relaxedAutoImplicit false
set_option autoImplicit false

namespace Strata.View

/-! ### Derivations -/

/-- One derivation of a view from another. -/
inductive Step where
  | restrict (range : KeyRange)
  | subMap (low high : Value)
  | headMap (high : Value)
  | tailMap (low : Value)
  | sample (s : Sample)
  | during (fromTimestamp toTimestamp : Option Nat)
  | matching (keyPattern valuePattern : Option String)
  | keyToKey
  | rowStats
  | derive (id : String) (options : Options) (asked : Option Codec)
  | deriveMulti (id : String) (options : Options) (asked : Option Codec)
  | aggregateView (id : String) (options : Options)

/-- The view that a derivation makes. -/
def Step.apply (v : View) : Step → Except MapError View
  | .restrict range => .ok (v.restrict range)
  | .subMap low high => v.subMap low high
  | .headMap high => v.headMap high
  | .tailMap low => v.tailMap low
  | .sample s => v.sample s
  | .during fromTimestamp toTimestamp => v.during fromTimestamp toTimestamp
  | .matching keyPattern valuePattern => v.matching keyPattern valuePattern
  | .keyToKey => v.keyToKey
  | .rowStats => v.rowStats
  | .derive id options asked => v.derive id options asked
  | .deriveMulti id options asked => v.deriveMulti id options asked
  | .aggregateView id options => v.aggregateView id options

/-- The view that derivations make, one on top of the other. -/
def derived (v : View) (steps : List Step) : Except MapError View :=
  steps.foldlM Step.apply v

variable {v w : View}

theorem aggregateView_eq_ok {id : String} {options : Options}
    (h : v.aggregateView id options = .ok w) :
    v.stack id options none v.top.mode = .ok w ∧ (w.kind = .aggregated ∨ w.kind = .empty) := by
  obtain ⟨made, hmade, h⟩ := bind_eq_ok.1 h
  split at h
  · next hkind =>
    obtain rfl : made = w := Except.ok.inj h
    exact ⟨hmade, hkind⟩
  · cases h

/-- The derivation restricts the view to a range of keys. -/
def Step.IsRange : Step → Prop
  | .restrict _ | .subMap _ _ | .headMap _ | .tailMap _ => True
  | _ => False

theorem Step.exists_restrict {step : Step} (h : step.apply v = .ok w) (hrange : step.IsRange) :
    ∃ range, w = v.restrict range := by
  cases step with
  | restrict range => exact ⟨range, (Except.ok.inj h).symm⟩
  | subMap low high =>
      obtain ⟨low, -, h⟩ := bind_eq_ok.1 h
      obtain ⟨high, -, h⟩ := bind_eq_ok.1 h
      exact ⟨_, (Except.ok.inj h).symm⟩
  | headMap high =>
      obtain ⟨high, -, h⟩ := bind_eq_ok.1 h
      exact ⟨_, (Except.ok.inj h).symm⟩
  | tailMap low =>
      obtain ⟨low, -, h⟩ := bind_eq_ok.1 h
      exact ⟨_, (Except.ok.inj h).symm⟩
  | _ => cases hrange

/-- A derivation restricts the view or puts an operator on. -/
theorem Step.apply_cases {step : Step} (h : step.apply v = .ok w) :
    (∃ range, w = v.restrict range) ∨
      ∃ id options asked mode, v.stack id options asked mode = .ok w := by
  cases step with
  | restrict _ | subMap _ _ | headMap _ | tailMap _ => exact Or.inl (Step.exists_restrict h trivial)
  | aggregateView id options => exact Or.inr ⟨_, _, _, _, (aggregateView_eq_ok h).1⟩
  | _ => exact Or.inr ⟨_, _, _, _, h⟩

/-- What holds of a view and is kept by restrictions and by operators holds of all that is derived
from it. -/
theorem derived_induction {P : View → Prop} {steps : List Step}
    (hrestrict : ∀ v range, P v → P (v.restrict range))
    (hstack : ∀ v id options asked mode w, P v → v.stack id options asked mode = .ok w → P w)
    (hv : P v) (h : v.derived steps = .ok w) : P w := by
  induction steps generalizing v with
  | nil =>
      obtain rfl : v = w := Except.ok.inj h
      exact hv
  | cons step steps ih =>
      obtain ⟨u, hu, h⟩ := bind_eq_ok.1 h
      -- the steps that follow start from a view of which `P` holds again
      refine ih ?_ h
      rcases Step.apply_cases hu with ⟨range, rfl⟩ | ⟨id, options, asked, mode, hu⟩
      · exact hrestrict v range hv
      · exact hstack v id options asked mode u hv hu

/-! ### Putting an operator on -/

/-- The layer of an operator: which descriptor it goes by, and that it could be built. -/
theorem stack_eq_ok {id : String} {options : Options} {asked : Option Codec} {mode : ScanMode}
    (h : v.stack id options asked mode = .ok w) :
    ∃ d format made operator,
      v.schema.registry.descriptor id = .ok d ∧
      d.checkInput v.top.valueType = .ok () ∧
      v.outputFormat d (v.inputOptions options) asked = .ok (format, made) ∧
      v.schema.registry.build ⟨id, v.top.nextPriority, made⟩ = .ok operator ∧
      w = v.child (v.operatorLayer d ⟨id, v.top.nextPriority, made⟩ format mode) := by
  obtain ⟨d, hd, h⟩ := bind_eq_ok.1 h
  obtain ⟨⟨⟩, hinput, h⟩ := bind_eq_ok.1 h
  obtain ⟨⟨format, made⟩, hformat, h⟩ := bind_eq_ok.1 h
  obtain ⟨operator, hbuild, h⟩ := bind_eq_ok.1 h
  exact ⟨d, format, made, operator, mapError_eq_ok.1 hd, mapError_eq_ok.1 hinput, hformat,
    mapError_eq_ok.1 hbuild, (Except.ok.inj h).symm⟩

/-- Nothing else is required of an operator. -/
theorem stack_of_build {id : String} {options made : Options} {asked : Option Codec}
    {d : Descriptor} {format : ValueReading} {operator : Operator}
    (hd : v.schema.registry.descriptor id = .ok d) (hinput : d.checkInput v.top.valueType = .ok ())
    (hformat : v.outputFormat d (v.inputOptions options) asked = .ok (format, made))
    (hbuild : v.schema.registry.build ⟨id, v.top.nextPriority, made⟩ = .ok operator)
    (mode : ScanMode) :
    v.stack id options asked mode =
      .ok (v.child (v.operatorLayer d ⟨id, v.top.nextPriority, made⟩ format mode)) :=
  bind_eq_ok.2 ⟨d, mapError_eq_ok.2 hd, bind_eq_ok.2 ⟨(), mapError_eq_ok.2 hinput,
    bind_eq_ok.2 ⟨_, hformat, bind_eq_ok.2 ⟨operator, mapError_eq_ok.2 hbuild, rfl⟩⟩⟩⟩

theorem kind_child (v : View) (layer : Layer) :
    (v.child layer).kind = if v.kind = .empty then .empty else layer.kind := rfl

theorem layers_child (v : View) (layer : Layer) :
    (v.child layer).layers = (v.child layer).top :: v.layers := rfl

theorem settings_child (v : View) (layer : Layer) :
    (v.child layer).settings = v.settings ++ layer.setting.toList := by
  rw [settings, layers_child, List.reverse_cons, List.filterMap_append]
  rfl

/-! ### The invariant -/

/-- An operator makes a view of one of four kinds. -/
theorem kindOf_cases (d : Descriptor) (id : String) :
    kindOf d id = .sampled ∨ kindOf d id = .filtered ∨ kindOf d id = .transformed ∨
      kindOf d id = .aggregated := by
  unfold kindOf
  split
  · exact Or.inl rfl
  · cases d.kind <;> simp

/-- **What holds of every derived view.**  It compiles to its range and its operators unless it is
empty, and the next operator has a priority of its own. -/
structure Sound (v : View) : Prop where
  compiles : ∀ mode, scannerOf mode v.layers =
    .ok (if v.kind = .empty then none else some ⟨v.top.range, mode, v.settings⟩)
  /-- Every operator runs before the next one. -/
  priorities : ∀ s ∈ v.settings, s.priority < v.top.nextPriority
  /-- Every operator is known, and its layer is of the kind that it makes. -/
  operators : ∀ layer ∈ v.layers, ∀ s ∈ layer.setting,
    ∃ d, v.schema.registry.descriptor s.id = .ok d ∧ layer.kind = kindOf d s.id
  searchable : v.top.range.isEmpty = false

theorem Sound.base (schema : Schema) : (base schema).Sound where
  compiles _ := rfl
  priorities := by
    have hnone : (View.base schema).settings = [] := rfl
    simp [hnone]
  operators := by
    rw [layers_base]
    simp [View.base]
  searchable := rfl

theorem scannerOf_of_empty (mode : ScanMode) (h : v.kind = .empty) :
    scannerOf mode v.layers = .ok none := by
  have htop : v.top.kind = .empty := h
  rw [layers, scannerOf, htop]

theorem insertSetting_append {settings : List Setting} (new : Setting)
    (h : ∀ s ∈ settings, s.priority < new.priority) :
    Scanner.insertSetting new settings = .ok (settings ++ [new]) := by
  induction settings with
  | nil => rfl
  | cons s settings ih =>
      rw [List.forall_mem_cons] at h
      rw [Scanner.insertSetting, if_neg (by omega), if_neg (by omega), ih h.2]
      rfl

section Restrict

variable (v : View) (range : KeyRange)

@[simp] theorem schema_restrict : (v.restrict range).schema = v.schema := by
  unfold restrict
  split <;> rfl

@[simp] theorem mode_restrict : (v.restrict range).top.mode = v.top.mode := by
  unfold restrict
  split <;> rfl

@[simp] theorem valueType_restrict : (v.restrict range).top.valueType = v.top.valueType := by
  unfold restrict
  split <;> rfl

@[simp] theorem format_restrict : (v.restrict range).top.format = v.top.format := by
  unfold restrict
  split <;> rfl

@[simp] theorem nextPriority_restrict :
    (v.restrict range).top.nextPriority = v.top.nextPriority := by
  unfold restrict
  split <;> rfl

end Restrict

theorem settings_restrict (v : View) (range : KeyRange) :
    (v.restrict range).settings = v.settings := by
  unfold restrict
  split <;> rw [settings_child] <;> exact List.append_nil _

theorem kind_restrict (v : View) (range : KeyRange) :
    (v.restrict range).kind =
      if v.kind = .empty ∨ v.top.range.intersect range = none then .empty else .restricted := by
  unfold restrict
  split <;> simp_all [kind_child]

theorem Sound.restrict (h : v.Sound) (range : KeyRange) : (v.restrict range).Sound := by
  refine ⟨fun mode => ?_, fun s hs => ?_, ?_, ?_⟩
  · by_cases hkind : (v.restrict range).kind = .empty
    · rw [if_pos hkind, scannerOf_of_empty mode hkind]
    · rw [if_neg hkind, settings_restrict]
      simp only [kind_restrict, ite_eq_left_iff, reduceCtorEq, imp_false, not_not, not_or] at hkind
      obtain ⟨clipped, hclipped⟩ := Option.ne_none_iff_exists'.1 hkind.2
      have htop : v.top.kind ≠ .empty := hkind.1
      simp only [View.restrict, hclipped]
      rw [layers_child, scannerOf, h.compiles]
      simp [child, htop, hkind.1, Except.map, Scanner.setRange]
  · rw [settings_restrict] at hs
    rw [nextPriority_restrict]
    exact h.priorities s hs
  · unfold View.restrict
    split <;> exact List.forall_mem_cons.2 ⟨by simp [child], h.operators⟩
  · unfold View.restrict
    split
    · next clipped hclipped => exact KeyRange.isEmpty_of_intersect hclipped
    · exact h.searchable

theorem Sound.operator (h : v.Sound) {d : Descriptor} {id : String}
    (hd : v.schema.registry.descriptor id = .ok d) (options : Options) (format : ValueReading)
    (mode : ScanMode) :
    (v.child (v.operatorLayer d ⟨id, v.top.nextPriority, options⟩ format mode)).Sound := by
  -- an empty view stays empty and keeps no operators
  by_cases hempty : v.kind = .empty
  · refine ⟨fun mode => ?_, ?_, ?_, h.searchable⟩
    · have hkind : ∀ layer, (v.child layer).kind = .empty := by simp [kind_child, hempty]
      rw [if_pos (hkind _), scannerOf_of_empty mode (hkind _)]
    · rw [settings_child]
      simpa [operatorLayer, isEmptyView, hempty, child] using h.priorities
    · refine List.forall_mem_cons.2 ⟨?_, h.operators⟩
      simp [child, operatorLayer, isEmptyView, hempty]
  · have htop : v.top.kind ≠ .empty := hempty
    have hview : v.isEmptyView = false := by simp [isEmptyView, hempty]
    refine ⟨fun mode => ?_, ?_, ?_, h.searchable⟩
    · rw [layers_child, scannerOf, kind_child, settings_child, h.compiles]
      -- the new operator has the highest priority, so it is installed behind the others
      have hinsert := insertSetting_append ⟨id, v.top.nextPriority, options⟩ h.priorities
      rcases kindOf_cases d id with hkind | hkind | hkind | hkind <;>
        simp [child, operatorLayer, hempty, htop, hview, hkind, Scanner.install, hinsert,
          Except.map]
    · rw [settings_child]
      intro s hs
      simp only [operatorLayer, hview, Bool.false_eq_true, if_false, Option.toList_some,
        List.mem_append, List.mem_singleton] at hs
      show s.priority <
        (v.operatorLayer d ⟨id, v.top.nextPriority, options⟩ format mode).nextPriority
      simp only [operatorLayer, hview, Bool.false_eq_true, if_false]
      rcases hs with hs | rfl
      · have := h.priorities s hs
        omega
      · exact Nat.lt_succ_self _
    · refine List.forall_mem_cons.2 ⟨?_, h.operators⟩
      intro s hs
      obtain rfl : ⟨id, v.top.nextPriority, options⟩ = s := by
        simpa [child, operatorLayer, hview] using hs
      exact ⟨d, hd, by simp [child, operatorLayer, htop]⟩

/-- **Every derived view is sound.** -/
theorem Sound.derived {steps : List Step} (h : v.Sound) (hrun : v.derived steps = .ok w) :
    w.Sound := by
  refine derived_induction (fun v range hv => hv.restrict range) ?_ h hrun
  intro v id options asked mode w hv hstack
  obtain ⟨d, format, made, -, hd, -, -, -, rfl⟩ := stack_eq_ok hstack
  exact hv.operator hd made format mode

theorem schema_derived {steps : List Step} (hrun : v.derived steps = .ok w) :
    w.schema = v.schema := by
  refine derived_induction (P := fun w => w.schema = v.schema) (fun u range hu => ?_) ?_ rfl hrun
  · rw [schema_restrict, hu]
  · intro u id options asked mode w hu hstack
    obtain ⟨d, format, made, -, -, -, -, -, rfl⟩ := stack_eq_ok hstack
    exact hu

/-- An operator makes no map of a view. -/
theorem kind_stack_ne_base {id : String} {options : Options} {asked : Option Codec}
    {mode : ScanMode} (h : v.stack id options asked mode = .ok w) : w.kind ≠ .base := by
  obtain ⟨d, format, made, -, -, -, -, -, rfl⟩ := stack_eq_ok h
  rw [kind_child]
  split
  · nofun
  · next hkind =>
    rcases kindOf_cases d id with hd | hd | hd | hd <;>
      simp [operatorLayer, isEmptyView, hkind, hd]

/-- **No derivation makes a map**: what was derived from a view is not the map itself. -/
theorem kind_derived_ne_base {steps : List Step} (hsteps : steps ≠ [])
    (hrun : v.derived steps = .ok w) : w.kind ≠ .base := by
  obtain ⟨step, steps, rfl⟩ := List.exists_cons_of_ne_nil hsteps
  obtain ⟨u, hu, hrun⟩ := bind_eq_ok.1 hrun
  have hrestrict : ∀ (v : View) (range : KeyRange), (v.restrict range).kind ≠ .base := by
    intro v range
    rw [kind_restrict]
    split <;> nofun
  have hfirst : u.kind ≠ .base := by
    rcases Step.apply_cases hu with ⟨range, rfl⟩ | ⟨id, options, asked, mode, hstack⟩
    · exact hrestrict v range
    · exact kind_stack_ne_base hstack
  exact derived_induction (fun v range _ => hrestrict v range)
    (fun _ _ _ _ _ _ _ hstack => kind_stack_ne_base hstack) hfirst hrun

/-! ### What an operator puts on top -/

section Topped

variable {id : String} {options : Options} {operator : Operator}

/-- A view that is not empty with an operator on top. -/
structure Topped (v : View) (setting : Setting) (operator : Operator) (w : View) : Prop where
  below : v.kind ≠ .empty
  above : w.kind ≠ .empty
  range : w.top.range = v.top.range
  settings : w.settings = v.settings ++ [setting]
  top : w.top.setting = some setting
  build : v.schema.registry.build setting = .ok operator

/-- An operator leaves a view empty or is put on top. -/
theorem operatorLayer_cases (v : View) (d : Descriptor) (format : ValueReading) (mode : ScanMode)
    (hbuild : v.schema.registry.build ⟨id, v.top.nextPriority, options⟩ = .ok operator) :
    (v.kind = .empty ∧
        (v.child (v.operatorLayer d ⟨id, v.top.nextPriority, options⟩ format mode)).kind = .empty ∧
        (v.child (v.operatorLayer d ⟨id, v.top.nextPriority, options⟩ format mode)).top.setting =
          none) ∨
      v.Topped ⟨id, v.top.nextPriority, options⟩ operator
        (v.child (v.operatorLayer d ⟨id, v.top.nextPriority, options⟩ format mode)) := by
  by_cases hempty : v.kind = .empty
  · refine Or.inl ⟨hempty, by rw [kind_child, if_pos hempty], ?_⟩
    simp [child, operatorLayer, isEmptyView, hempty]
  · have hview : v.isEmptyView = false := by simp [isEmptyView, hempty]
    refine Or.inr ⟨hempty, ?_, rfl, ?_, ?_, hbuild⟩
    · rw [kind_child, if_neg hempty]
      rcases kindOf_cases d id with hkind | hkind | hkind | hkind <;>
        simp [operatorLayer, hkind]
    · rw [settings_child]
      simp [operatorLayer, hview]
    · simp [child, operatorLayer, hview]

/-- An aggregate that can be put on makes an aggregate view. -/
theorem aggregateView_of_build {made : Options} {d : Descriptor} {format : ValueReading}
    (hd : v.schema.registry.descriptor id = .ok d) (hinput : d.checkInput v.top.valueType = .ok ())
    (hformat : v.outputFormat d (v.inputOptions options) none = .ok (format, made))
    (hbuild : v.schema.registry.build ⟨id, v.top.nextPriority, made⟩ = .ok operator)
    (hid : id ≠ Sample.operatorId) (hkind : d.kind = .aggregate) :
    v.aggregateView id options =
      .ok (v.child (v.operatorLayer d ⟨id, v.top.nextPriority, made⟩ format v.top.mode)) := by
  refine bind_eq_ok.2 ⟨_, stack_of_build hd hinput hformat hbuild v.top.mode, if_pos ?_⟩
  rw [kind_child]
  split
  · exact Or.inr rfl
  · exact Or.inl (by simp [operatorLayer, kindOf, hid, hkind])

/-- An aggregate leaves a view empty or puts its operator on top. -/
theorem Sound.aggregateView_cases (h : v.Sound) {id : String} {options : Options}
    (hview : v.aggregateView id options = .ok w) :
    w.Sound ∧ w.schema = v.schema ∧ w.top.mode = v.top.mode ∧
      ((v.kind = .empty ∧ w.kind = .empty ∧ w.top.setting = none) ∨
        ∃ setting operator, setting.id = id ∧ v.Topped setting operator w) := by
  obtain ⟨d, format, options, operator, hd, -, -, hbuild, rfl⟩ :=
    stack_eq_ok (aggregateView_eq_ok hview).1
  refine ⟨h.operator hd options format v.top.mode, rfl, rfl, ?_⟩
  exact (operatorLayer_cases v d format v.top.mode hbuild).imp_right
    fun htop => ⟨_, operator, rfl, htop⟩

end Topped

/-! ### Scans -/

/-- Every partition that the view meets can run the operator. -/
def RunsOn (v : View) (store : Store) (id : String) : Prop :=
  v.kind ≠ .empty → ∀ p ∈ store.partitions, v.top.range.overlapsSpan p.low p.high = true →
    p.runs id = true

section Scans

variable {store : Store} {range : KeyRange} {mode : ScanMode}

/-- The scan of a view that is not empty. -/
def scanner (v : View) (mode : ScanMode) : Scanner := ⟨v.top.range, mode, v.settings⟩

/-- The scan of a view with an operator on top. -/
theorem Topped.scanner {setting : Setting} {operator : Operator}
    (h : v.Topped setting operator w) (mode : ScanMode) :
    w.scanner mode = ⟨v.top.range, mode, v.settings ++ [setting]⟩ := by
  rw [View.scanner, h.range, h.settings]

theorem Sound.scanner?_eq (h : v.Sound) (mode : ScanMode) :
    v.scanner? mode = .ok (if v.kind = .empty then none else some (v.scanner mode)) := by
  rw [scanner?, h.compiles]
  rfl

/-- An empty view returns nothing. -/
theorem Sound.scan_of_empty (h : v.Sound) (hempty : v.kind = .empty) (range : Option KeyRange) :
    v.scan store range mode = .ok [] := by
  rw [View.scan, openStream, h.scanner?_eq, if_pos hempty]
  rfl

theorem Sound.eq_nil_of_scan (h : v.Sound) (hempty : v.kind = .empty) {range : Option KeyRange}
    {found : List Entry} (hfound : v.scan store range mode = .ok (found.map .ok)) : found = [] := by
  rw [h.scan_of_empty hempty] at hfound
  exact List.map_eq_nil_iff.1 (Except.ok.inj hfound).symm

/-- **A scan of a view is a scan of the store** with the operators of the view. -/
theorem Sound.scan_eq (h : v.Sound) (hempty : v.kind ≠ .empty) :
    v.scan store none mode = .ok ((store.scan (v.scanner mode)).map ofItem) := by
  rw [View.scan, openStream, h.scanner?_eq, if_neg hempty]
  rfl

theorem Sound.scan_some (h : v.Sound) (hempty : v.kind ≠ .empty) :
    v.scan store (some range) mode =
      .ok (match v.top.range.intersect range with
        | some clipped => (store.scan ((v.scanner mode).setRange clipped)).map ofItem
        | none => []) := by
  rw [View.scan, openStream, h.scanner?_eq, if_neg hempty]
  simp only [Except.map, scanner]
  cases v.top.range.intersect range <;> rfl

/-- **Reading part of a view is reading its restriction.** -/
theorem Sound.scan_restrict (h : v.Sound) :
    (v.restrict range).scan store none mode = v.scan store (some range) mode := by
  have hrestrict := h.restrict range
  by_cases hempty : v.kind = .empty
  · rw [hrestrict.scan_of_empty (by simp [kind_restrict, hempty]), h.scan_of_empty hempty]
  · rw [h.scan_some hempty]
    cases hclipped : v.top.range.intersect range with
    | none => rw [hrestrict.scan_of_empty (by simp [kind_restrict, hclipped])]
    | some clipped =>
        have hscanner : (v.restrict range).scanner mode = (v.scanner mode).setRange clipped := by
          have hrange : (v.restrict range).top.range = clipped := by
            simp [View.restrict, hclipped, child]
          rw [scanner, hrange, settings_restrict]
          rfl
        rw [hrestrict.scan_eq (by simp [kind_restrict, hempty, hclipped]), hscanner]

theorem map_ofItem_ok (entries : List Entry) :
    (entries.map Except.ok).map ofItem = entries.map .ok := by
  rw [List.map_map]
  rfl

theorem eq_map_ok_of_map_ofItem {items : List ScanItem} {entries : List Entry}
    (h : items.map ofItem = entries.map .ok) : items = entries.map .ok := by
  induction items generalizing entries with
  | nil =>
      cases entries with
      | nil => rfl
      | cons e entries => cases h
  | cons item items ih =>
      cases entries with
      | nil => cases h
      | cons e entries =>
          obtain ⟨hitem, hitems⟩ := List.cons.inj h
          rw [List.map_cons, ih hitems, mapError_eq_ok.1 hitem]

/-- The first entry of a scan. -/
theorem firstEntry_eq (v : View) (store : Store) (range : Option KeyRange) (mode : ScanMode) :
    v.firstEntry store range mode =
      (v.scan store range mode).bind fun items =>
        match items.head? with
        | none => .ok none
        | some item => item.map some := by
  rw [firstEntry, View.scan]
  cases v.openStream store range mode with
  | error e => rfl
  | ok s =>
      simp only [Except.map, Except.bind, List.head?_map, (Stream.next_eq store s).1]
      cases (s.drain store).head? <;> rfl

end Scans

end Strata.View
