/-
**What a derivation asks of a view.**

An operator is checked when it is put on: it has to be known, to accept the values of the view, to
be told of codecs that are known, and to be built from its options.  All that is asked of the view
is the type of its values and how they are read.  So views that are alike in these accept the same
derivations, refuse the others for the same reason, and what is derived from them is alike again.  A
restriction makes a view that is alike, the empty one included.

One check is made of the view that was derived and not of the operator: an aggregate view has to be
of the kind that aggregates make.  What is derived from an empty view is empty whatever was put on,
and passes.  So an operator that is no aggregate is refused, unless the view is empty.

* `View.Alike`, `View.Alike.restrict` — views whose values are read alike;
* `View.checked`, `View.stack_eq` — **all that is asked when an operator is put on**;
* `View.Agree`, `View.Alike.apply`, `View.Alike.derived` — alike views have the same derivations;
* `View.Step.Misnames` — no aggregate is asked for as one;
* `View.checks_of_disjoint` — **what is checked over a disjoint range**.
-/

import Strata.Proofs.Operator.Builtin
import Strata.Proofs.View.Derived

set_option relaxedAutoImplicit false
set_option autoImplicit false

namespace Strata.View

variable {v w : View} {id : String} {options : Options} {asked : Option Codec}

/-! ### Views whose values are read alike -/

/-- Two views of maps with one schema show values of one type, which are read in one way. -/
structure Alike (v w : View) : Prop where
  schema : w.schema = v.schema
  valueType : w.top.valueType = v.top.valueType
  format : w.top.format = v.top.format

/-- A restriction changes nothing about the values. -/
theorem Alike.restrict (h : Alike v w) (range range' : KeyRange) :
    Alike (v.restrict range) (w.restrict range') where
  schema := by rw [schema_restrict, schema_restrict, h.schema]
  valueType := by rw [valueType_restrict, valueType_restrict, h.valueType]
  format := by rw [format_restrict, format_restrict, h.format]

theorem alike_restrict (v : View) (range : KeyRange) : Alike v (v.restrict range) where
  schema := schema_restrict v range
  valueType := valueType_restrict v range
  format := format_restrict v range

/-- What two attempts to derive a view come to: both fail for the same reason, or neither does, and
then the views are alike. -/
inductive Agree : Except MapError View → Except MapError View → Prop
  | fails (fault : MapError) : Agree (.error fault) (.error fault)
  | makes {v w : View} (h : Alike v w) : Agree (.ok v) (.ok w)

theorem Agree.error_iff {a b : Except MapError View} (h : Agree a b) (fault : MapError) :
    a = .error fault ↔ b = .error fault := by
  cases h with
  | fails other => exact Iff.rfl
  | makes h => simp

theorem Agree.exists_ok_iff {a b : Except MapError View} (h : Agree a b) :
    (∃ made, a = .ok made) ↔ ∃ made, b = .ok made := by
  cases h with
  | fails other => simp
  | makes h => simp

/-- Attempts that begin with one step agree if they do after it. -/
theorem Agree.bind {α : Type} (x : Except MapError α) {f g : α → Except MapError View}
    (h : ∀ a, Agree (f a) (g a)) : Agree (x >>= f) (x >>= g) := by
  cases x with
  | error fault => exact .fails fault
  | ok a => exact h a

/-! ### Putting an operator on -/

/-- All that is asked when an operator is put on: its descriptor, how the values that it makes are
read, and the options that it was built from. -/
def checked (v : View) (id : String) (options : Options) (asked : Option Codec) :
    Except MapError (Descriptor × ValueReading × Options) := do
  let d ← (v.schema.registry.descriptor id).mapError MapError.ofOperatorError
  (d.checkInput v.top.valueType).mapError MapError.ofOperatorError
  let (format, options) ← v.outputFormat d (v.inputOptions options) asked
  let _ ← (v.schema.registry.build ⟨id, v.top.nextPriority, options⟩).mapError fun e =>
    .configuration e.message
  return (d, format, options)

/-- **An operator is put on if it passes the checks.** -/
theorem stack_eq (v : View) (id : String) (options : Options) (asked : Option Codec)
    (mode : ScanMode) :
    v.stack id options asked mode = (v.checked id options asked).map fun (d, format, made) =>
      v.child (v.operatorLayer d ⟨id, v.top.nextPriority, made⟩ format mode) := by
  unfold stack checked
  cases (v.schema.registry.descriptor id).mapError MapError.ofOperatorError with
  | error fault => rfl
  | ok d =>
      cases hinput : (d.checkInput v.top.valueType).mapError MapError.ofOperatorError with
      | error fault => simp [bind, Except.bind, Except.map, hinput]
      | ok accepted =>
          cases hformat : v.outputFormat d (v.inputOptions options) asked with
          | error fault => simp [bind, Except.bind, Except.map, hinput, hformat]
          | ok made =>
              cases hbuild : (v.schema.registry.build ⟨id, v.top.nextPriority, made.2⟩).mapError
                  fun e => MapError.configuration e.message <;>
                simp [bind, Except.bind, Except.map, pure, Except.pure, hinput, hformat, hbuild]

/-- The checks look at nothing in which alike views differ. -/
theorem Alike.checked (h : Alike v w) (id : String) (options : Options) (asked : Option Codec) :
    w.checked id options asked = v.checked id options asked := by
  have hoptions : w.inputOptions options = v.inputOptions options := by
    unfold View.inputOptions
    rw [h.schema, h.format]
  have hformat (d : Descriptor) (given : Options) :
      w.outputFormat d given asked = v.outputFormat d given asked := by
    unfold View.outputFormat View.outputCodec
    rw [h.schema, h.format]
  unfold View.checked
  simp only [hoptions, hformat, h.schema, h.valueType]
  -- what is left is the priority, and an operator is built from its options alone
  rfl

theorem Alike.stack (h : Alike v w) (id : String) (options : Options) (asked : Option Codec)
    (mode mode' : ScanMode) :
    Agree (v.stack id options asked mode) (w.stack id options asked mode') := by
  rw [stack_eq, stack_eq, h.checked]
  cases v.checked id options asked with
  | error fault => exact .fails fault
  | ok made =>
      refine .makes ⟨h.schema, ?_, rfl⟩
      simp only [child, operatorLayer, h.valueType]

/-! ### Aggregate views -/

/-- Where the derivation asks for a view of an aggregate, it names one, if it names an operator that
is known. -/
def Step.NamesAggregate (registry : Registry) : Step → Prop
  | .aggregateView id _ => ∀ d, registry.descriptor id = .ok d → kindOf d id = .aggregated
  | _ => True

/-- The derivation asks for the view of an aggregate, but names an operator that is none.  It could
be put on all the same. -/
inductive Step.Misnames (v : View) : Step → Prop
  | aggregateView {id : String} {options : Options} {d : Descriptor} {made : View}
      (hd : v.schema.registry.descriptor id = .ok d) (hkind : kindOf d id ≠ .aggregated)
      (hmade : v.derive id options none = .ok made) : Misnames v (.aggregateView id options)

theorem aggregateView_eq (v : View) (id : String) (options : Options) :
    v.aggregateView id options = (v.stack id options none v.top.mode).bind fun made =>
      if made.kind = .aggregated ∨ made.kind = .empty then .ok made
      else .error (.configuration s!"{id} is not an aggregate operator") := rfl

/-- The view of an aggregate is what putting it on makes. -/
theorem aggregateView_of_names
    (h : ∀ d, v.schema.registry.descriptor id = .ok d → kindOf d id = .aggregated) :
    v.aggregateView id options = v.stack id options none v.top.mode := by
  rw [aggregateView_eq]
  cases hstack : v.stack id options none v.top.mode with
  | error fault => rfl
  | ok made =>
      obtain ⟨d, format, given, operator, hd, -, -, -, rfl⟩ := stack_eq_ok hstack
      rw [Except.bind, if_pos]
      rw [kind_child]
      split
      · exact Or.inr rfl
      · exact Or.inl (h d hd)

/-- Over an empty view nothing is refused by the kind of the view that is made. -/
theorem aggregateView_of_empty (hv : v.kind = .empty) :
    v.aggregateView id options = v.stack id options none v.top.mode := by
  rw [aggregateView_eq]
  cases hstack : v.stack id options none v.top.mode with
  | error fault => rfl
  | ok made =>
      obtain ⟨d, format, given, operator, -, -, -, -, rfl⟩ := stack_eq_ok hstack
      rw [Except.bind, if_pos]
      rw [kind_child, if_pos hv]
      exact Or.inr rfl

/-- An operator that is no aggregate is refused by the kind of the view that it makes. -/
theorem aggregateView_of_misnamed {d : Descriptor} {made : View} (hv : v.kind ≠ .empty)
    (hd : v.schema.registry.descriptor id = .ok d) (hkind : kindOf d id ≠ .aggregated)
    (hmade : v.derive id options none = .ok made) :
    v.aggregateView id options = .error (.configuration s!"{id} is not an aggregate operator") := by
  have hstack : v.stack id options none v.top.mode = .ok made := hmade
  obtain ⟨d', format, given, operator, hd', -, -, -, rfl⟩ := stack_eq_ok hstack
  obtain rfl : d' = d := Except.ok.inj (hd'.symm.trans hd)
  have hne : kindOf d' id ≠ .empty := by
    rcases kindOf_cases d' id with h | h | h | h <;> simp [h]
  rw [aggregateView_eq, hstack, Except.bind, if_neg]
  rw [kind_child, if_neg hv]
  exact not_or.2 ⟨hkind, hne⟩

/-! ### The same derivations -/

/-- **Alike views have the same derivations**, where aggregates are named for what they are. -/
theorem Alike.apply (h : Alike v w) {step : Step} (hstep : step.NamesAggregate v.schema.registry) :
    Agree (step.apply v) (step.apply w) := by
  have hencode (key : Value) : w.encodeKey key = v.encodeKey key := by
    rw [View.encodeKey, View.encodeKey, h.schema]
  cases step with
  | restrict range => exact .makes (h.restrict range range)
  | subMap low high =>
      show Agree (v.subMap low high) (w.subMap low high)
      unfold subMap
      rw [hencode, hencode]
      exact .bind _ fun low => .bind _ fun high => .makes (h.restrict _ _)
  | headMap high =>
      show Agree (v.headMap high) (w.headMap high)
      unfold headMap
      rw [hencode]
      exact .bind _ fun high => .makes (h.restrict _ _)
  | tailMap low =>
      show Agree (v.tailMap low) (w.tailMap low)
      unfold tailMap
      rw [hencode]
      exact .bind _ fun low => .makes (h.restrict _ _)
  | keyToKey =>
      show Agree v.keyToKey w.keyToKey
      unfold keyToKey
      rw [h.schema]
      exact h.stack _ _ _ _ _
  | aggregateView id options =>
      have hstep' : ∀ d, w.schema.registry.descriptor id = .ok d → kindOf d id = .aggregated := by
        rw [h.schema]
        exact hstep
      show Agree (v.aggregateView id options) (w.aggregateView id options)
      rw [aggregateView_of_names hstep, aggregateView_of_names hstep']
      exact h.stack _ _ _ _ _
  | _ => exact h.stack _ _ _ _ _

/-- A sample under a seed of random bytes is refused for its fraction, or is one like others. -/
theorem Alike.sampleFraction (h : Alike v w) (random : Bytes) (fraction : Float) :
    Agree (v.sampleFraction random fraction) (w.sampleFraction random fraction) :=
  .bind _ fun _ => h.stack _ _ _ _ _

theorem schema_apply {step : Step} (h : step.apply v = .ok w) : w.schema = v.schema := by
  rcases Step.apply_cases h with ⟨range, rfl⟩ | ⟨id, options, asked, mode, hstack⟩
  · exact schema_restrict v range
  · obtain ⟨d, format, made, operator, -, -, -, -, rfl⟩ := stack_eq_ok hstack
    rfl

/-- **Alike views have the same stacks of derivations.** -/
theorem Alike.derived (h : Alike v w) {steps : List Step}
    (hsteps : ∀ step ∈ steps, step.NamesAggregate v.schema.registry) :
    Agree (v.derived steps) (w.derived steps) := by
  induction steps generalizing v w with
  | nil => exact .makes h
  | cons step steps ih =>
      obtain ⟨hstep, hsteps⟩ := List.forall_mem_cons.1 hsteps
      unfold View.derived
      rw [List.foldlM_cons, List.foldlM_cons]
      -- what the first derivation makes of the views is alike again, over the same registry
      have hagree := h.apply hstep
      cases hv : step.apply v with
      | error fault =>
          rw [hv] at hagree
          rw [(hagree.error_iff fault).1 rfl]
          exact .fails fault
      | ok v' =>
          rw [hv] at hagree
          obtain ⟨w', hw⟩ := hagree.exists_ok_iff.1 ⟨v', rfl⟩
          rw [hw] at hagree ⊢
          cases hagree with
          | makes halike =>
              refine ih halike ?_
              rw [schema_apply hv]
              exact hsteps

/-! ### Over a disjoint range -/

/-- Only an operator that is misnamed, and nothing else, keeps alike views from having the same
derivations. -/
theorem Alike.apply_or_misnames (h : Alike v w) (step : Step) :
    step.Misnames v ∨ Agree (step.apply v) (step.apply w) := by
  by_cases hstep : step.NamesAggregate v.schema.registry
  · exact Or.inr (h.apply hstep)
  · cases step with
    | aggregateView id options =>
        simp only [Step.NamesAggregate, not_forall] at hstep
        obtain ⟨d, hd, hkind⟩ := hstep
        cases hstack : v.stack id options none v.top.mode with
        | ok made => exact Or.inl (.aggregateView hd hkind hstack)
        | error fault =>
            -- it is refused before its kind is looked at
            refine Or.inr ?_
            have hother : w.stack id options none w.top.mode = .error fault :=
              ((h.stack id options none v.top.mode w.top.mode).error_iff fault).1 hstack
            show Agree (v.aggregateView id options) (w.aggregateView id options)
            rw [aggregateView_eq, aggregateView_eq, hstack, hother]
            exact .fails fault
    | _ => exact absurd trivial hstep

/-- **What is checked over a disjoint range.**  A restriction to a range that a view does not meet
makes an empty view.  A derivation succeeds over it exactly if it does over the view, and fails for
the same reason; so does a stack of derivations in which aggregates are named for what they are.
The one exception is an operator that is no aggregate and passes all other checks: asked for as an
aggregate it is refused over the view and accepted over the empty one. -/
theorem checks_of_disjoint (v : View) (hv : v.kind ≠ .empty) (range : KeyRange)
    (hrange : v.top.range.intersect range = none) :
    (v.restrict range).kind = .empty ∧
    (∀ step : Step, ¬ step.Misnames v →
      ((∃ made, step.apply v = .ok made) ↔ ∃ made, step.apply (v.restrict range) = .ok made) ∧
      ∀ fault, step.apply v = .error fault ↔ step.apply (v.restrict range) = .error fault) ∧
    (∀ random fraction,
      ((∃ made, v.sampleFraction random fraction = .ok made) ↔
        ∃ made, (v.restrict range).sampleFraction random fraction = .ok made) ∧
      ∀ fault, v.sampleFraction random fraction = .error fault ↔
        (v.restrict range).sampleFraction random fraction = .error fault) ∧
    (∀ id options, Step.Misnames v (.aggregateView id options) →
      v.aggregateView id options =
        .error (.configuration s!"{id} is not an aggregate operator") ∧
      ∃ made, (v.restrict range).aggregateView id options = .ok made) ∧
    ∀ steps : List Step, (∀ step ∈ steps, step.NamesAggregate v.schema.registry) →
      ((∃ made, v.derived steps = .ok made) ↔ ∃ made, (v.restrict range).derived steps = .ok made) ∧
      ∀ fault,
        v.derived steps = .error fault ↔ (v.restrict range).derived steps = .error fault := by
  have halike := alike_restrict v range
  have hempty : (v.restrict range).kind = .empty := by
    rw [kind_restrict, if_pos (Or.inr hrange)]
  refine ⟨hempty, fun step hstep => ?_, fun random fraction => ?_, fun id options hnames => ?_,
    fun steps hsteps => ?_⟩
  · have hagree := (halike.apply_or_misnames step).resolve_left hstep
    exact ⟨hagree.exists_ok_iff, hagree.error_iff⟩
  · have hagree := halike.sampleFraction random fraction
    exact ⟨hagree.exists_ok_iff, hagree.error_iff⟩
  · cases hnames with
    | aggregateView hd hkind hmade =>
        refine ⟨aggregateView_of_misnamed hv hd hkind hmade, ?_⟩
        rw [aggregateView_of_empty hempty]
        exact (halike.stack id options none _ _).exists_ok_iff.1 ⟨_, hmade⟩
  · have hagree := halike.derived hsteps
    exact ⟨hagree.exists_ok_iff, hagree.error_iff⟩

/-- An operator that nobody knows is refused for the same reason below a key and in the empty view
of what is not below it. -/
theorem checks_of_disjoint_unknown :
    let v := (View.base ⟨.long, .long, Settings.standard, .builtin fun bytes => bytes⟩).restrict
      ⟨.unbounded, .exclusive [1]⟩
    let range : KeyRange := ⟨.inclusive [1], .unbounded⟩
    let median : Step := .derive "median" [] none
    v.kind ≠ .empty ∧ v.top.range.intersect range = none ∧ ¬ median.Misnames v ∧
      median.apply (v.restrict range) = .error (.configuration "Unknown operator: median") := by
  intro v range median
  have hv : v.kind ≠ .empty := by decide
  have hrange : v.top.range.intersect range = none := by decide
  have hnames : ¬ median.Misnames v := by
    unfold median
    rintro ⟨⟩
  have hfault : median.apply v = .error (.configuration "Unknown operator: median") := by
    simp only [v, Registry.builtin_eq]
    rfl
  exact ⟨hv, hrange, hnames,
    (((checks_of_disjoint v hv range hrange).2.1 median hnames).2 _).1 hfault⟩

/-- Copying keys is no aggregate and is refused as one below a key, but not in the empty view of
what is not below it. -/
theorem misnamed_over_empty :
    let v := (View.base ⟨.long, .long, Settings.standard, .builtin fun bytes => bytes⟩).restrict
      ⟨.unbounded, .exclusive [1]⟩
    let range : KeyRange := ⟨.inclusive [1], .unbounded⟩
    let copy : Step := .aggregateView "key_to_key" []
    v.kind ≠ .empty ∧ v.top.range.intersect range = none ∧ (v.restrict range).kind = .empty ∧
      copy.apply v = .error (.configuration "key_to_key is not an aggregate operator") ∧
      ∃ made, copy.apply (v.restrict range) = .ok made := by
  intro v range copy
  refine ⟨by decide, by decide, by decide, ?_⟩
  simp only [v, Registry.builtin_eq]
  exact ⟨rfl, _, rfl⟩

end Strata.View
