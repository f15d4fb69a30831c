/-
**Reads of an aggregate narrow the range beneath it.**

A view with an aggregate on top shows one entry of every partition.  A range, be it of a restriction
or of a read of one key, narrows the scan beneath the operators, so the aggregate gathers the
entries in range and does not select from what it shows of all of them: a read of a key finds the
aggregate of the entries of that key alone, also where another key is the last of its partition.

* `View.Topped.scan_iff` — **a scan of part of the view**, span by span;
* `View.restrict_aggregateView` — restrictions and aggregates change places;
* `View.Topped.reads_key` — reads of one key;
* `Splits`, `perSpan_filter_of_splits` — ranges that split no partition;
* `View.aggregateView_reads` — **what reads of an aggregate find**;
* `View.containsKey_of_hidden_key` — a key that iteration does not show.
-/

import Strata.Proofs.Operator.Gather
import Strata.Proofs.Store.PerSpan
import Strata.Proofs.View.PointReads

set_option relaxedAutoImplicit false
set_option autoImplicit false

namespace Strata

/-! ### Entries of one key -/

section OneKey

variable {operator : Operator} {entries : List Entry}
  {low : Option Bytes} {bounds : List (Option Bytes × Option Bytes)} {key : Bytes}

/-- Spans without entries add nothing. -/
theorem perSpan_eq_nil (hnil : operator [] = .ok [])
    (h : ∀ span ∈ bounds, ∀ e ∈ entries,
      (KeyRange.halfOpen span.1 span.2).contains e.key = false) :
    perSpan operator entries bounds = .ok [] := by
  induction bounds with
  | nil => rfl
  | cons span bounds ih =>
      rw [List.forall_mem_cons] at h
      have hnone : (entries.filter fun e =>
          (KeyRange.halfOpen span.1 span.2).contains e.key) = [] :=
        List.filter_eq_nil_iff.2 fun e he => by simp [h.1 e he]
      rw [perSpan, hnone, hnil, ih h.2]
      rfl

/-- **Entries of one key** are all in one span. -/
theorem perSpan_of_key (hnil : operator [] = .ok []) (h : Tiles low bounds)
    (hlow : ∀ l ∈ low, l ≤ key) (hkey : ∀ e ∈ entries, e.key = key) :
    perSpan operator entries bounds = operator entries := by
  induction h with
  | last low =>
      have hall : (entries.filter fun e => (KeyRange.halfOpen low none).contains e.key) =
          entries := by
        refine List.filter_eq_self.2 ?_
        intro e he
        rw [hkey e he]
        exact (KeyRange.contains_halfOpen _ _ _).2 ⟨hlow, by simp⟩
      rw [perSpan, hall]
      cases operator entries with
      | error e => rfl
      | ok left => exact congrArg Except.ok (List.append_nil left)
  | @step low split rest hsplit hrest ih =>
      rw [perSpan]
      by_cases hlt : key < split
      · -- the key is in the first span, and the others begin behind it
        have hall : (entries.filter fun e => (KeyRange.halfOpen low (some split)).contains e.key) =
            entries := by
          refine List.filter_eq_self.2 ?_
          intro e he
          rw [hkey e he]
          exact (KeyRange.contains_halfOpen _ _ _).2 ⟨hlow, by simpa using hlt⟩
        have hothers : perSpan operator entries rest = .ok [] := by
          refine perSpan_eq_nil hnil ?_
          intro span hspan e he
          rw [hkey e he, Bool.eq_false_iff]
          intro hin
          exact absurd (hrest.low_le hspan hin split rfl) (not_le.2 hlt)
        rw [hall, hothers]
        cases operator entries with
        | error e => rfl
        | ok left => exact congrArg Except.ok (List.append_nil left)
      · have hnone : (entries.filter fun e =>
            (KeyRange.halfOpen low (some split)).contains e.key) = [] := by
          refine List.filter_eq_nil_iff.2 ?_
          intro e he
          rw [hkey e he]
          intro hin
          exact hlt (((KeyRange.contains_halfOpen _ _ _).1 hin).2 split rfl)
        rw [hnone, hnil, ih (by simpa using not_lt.1 hlt)]
        cases operator entries <;> rfl

end OneKey

/-! ### Parts of what is gathered -/

section Parts

variable {value : List Entry → Except OperatorError Bytes} {shown found part : List Entry}
  {bounds : List (Option Bytes × Option Bytes)}

theorem filter_comm (keep other : Entry → Bool) :
    (shown.filter keep).filter other = (shown.filter other).filter keep := by
  rw [List.filter_filter, List.filter_filter]
  exact List.filter_congr fun e _ => Bool.and_comm ..

/-- What can be gathered can be gathered in part. -/
theorem exists_gather_filter (hsafe : EntrywiseSafe value) (h : gather value shown = .ok found)
    (keep : Entry → Bool) : ∃ part, gather value (shown.filter keep) = .ok part := by
  rcases gather_eq_ok h with ⟨rfl, -⟩ | ⟨last, bytes, -, hvalue, -⟩
  · exact ⟨[], rfl⟩
  · obtain ⟨bytes, hbytes⟩ := hsafe.filter hvalue keep
    exact gather_of_value hbytes

theorem exists_perSpan_filter (hsafe : EntrywiseSafe value)
    (h : perSpan (gather value) shown bounds = .ok found) (keep : Entry → Bool) :
    ∃ part, perSpan (gather value) (shown.filter keep) bounds = .ok part := by
  induction bounds generalizing found with
  | nil => exact ⟨[], rfl⟩
  | cons span bounds ih =>
      obtain ⟨left, hleft, h⟩ := bind_eq_ok.1 h
      obtain ⟨rest, hrest, -⟩ := bind_eq_ok.1 h
      obtain ⟨first, hfirst⟩ := exists_gather_filter hsafe hleft keep
      obtain ⟨others, hothers⟩ := ih hrest
      rw [filter_comm] at hfirst
      exact ⟨first ++ others, bind_eq_ok.2 ⟨first, hfirst, bind_eq_ok.2 ⟨others, hothers, rfl⟩⟩⟩

/-- The range holds all of the entries of every span or none of them. -/
def Splits (range : KeyRange) (shown : List Entry)
    (bounds : List (Option Bytes × Option Bytes)) : Prop :=
  ∀ span ∈ bounds, ∃ held : Bool, ∀ e ∈ shown,
    (KeyRange.halfOpen span.1 span.2).contains e.key = true → range.contains e.key = held

/-- **Where a range splits no partition**, gathering what lies in range is selecting from what is
gathered. -/
theorem perSpan_filter_of_splits {range : KeyRange} (hsplits : Splits range shown bounds)
    (h : perSpan (gather value) shown bounds = .ok found)
    (hpart : perSpan (gather value) (shown.filter fun e => range.contains e.key) bounds =
      .ok part) :
    part = found.filter fun e => range.contains e.key := by
  induction bounds generalizing found part with
  | nil =>
      obtain rfl : [] = found := Except.ok.inj h
      exact (Except.ok.inj hpart).symm
  | cons span bounds ih =>
      obtain ⟨left, hleft, h⟩ := bind_eq_ok.1 h
      obtain ⟨rest, hrest, h⟩ := bind_eq_ok.1 h
      obtain ⟨first, hfirst, hpart⟩ := bind_eq_ok.1 hpart
      obtain ⟨others, hothers, hpart⟩ := bind_eq_ok.1 hpart
      obtain ⟨hspan, hbounds⟩ := List.forall_mem_cons.1 hsplits
      obtain ⟨held, hheld⟩ := hspan
      -- the one entry of the span has the key of one that was gathered there
      have hin : ∀ e ∈ shown.filter fun e => (KeyRange.halfOpen span.1 span.2).contains e.key,
          range.contains e.key = held := by
        intro e he
        exact hheld e (List.mem_filter.1 he).1 (List.mem_filter.1 he).2
      have hkeys : ∀ e ∈ left, range.contains e.key = held := by
        intro e he
        rcases gather_eq_ok hleft with ⟨-, rfl⟩ | ⟨last, bytes, hlast, -, rfl⟩
        · cases he
        · obtain rfl := List.mem_singleton.1 he
          exact hin last (List.mem_of_getLast? hlast)
      have hone : first = left.filter fun e => range.contains e.key := by
        rw [filter_comm] at hfirst
        cases held with
        | true =>
            rw [List.filter_eq_self.2 hin, hleft] at hfirst
            rw [List.filter_eq_self.2 hkeys]
            exact (Except.ok.inj hfirst).symm
        | false =>
            rw [List.filter_eq_nil_iff.2 fun e he => by simp [hin e he]] at hfirst
            rw [List.filter_eq_nil_iff.2 fun e he => by simp [hkeys e he]]
            exact (Except.ok.inj hfirst).symm
      rw [← Except.ok.inj h, ← Except.ok.inj hpart, List.filter_append, hone,
        ih hbounds hrest hothers]

end Parts

namespace View

variable {v w : View} {store : Store} {setting : Setting} {operator : Operator}
  {mode : ScanMode} {range : KeyRange} {found : List Entry}

/-! ### Scans of part of a view -/

/-- All of a view is its part in the range of all keys. -/
theorem Sound.scan_full (h : v.Sound) :
    v.scan store (some KeyRange.full) mode = v.scan store none mode := by
  by_cases hempty : v.kind = .empty
  · rw [h.scan_of_empty hempty, h.scan_of_empty hempty]
  · rw [h.scan_some hempty, h.scan_eq hempty, KeyRange.intersect_full, h.searchable]
    rfl

theorem scan_eq_ok_iff {items : List ScanItem} :
    (Except.ok (items.map ofItem) : Except MapError (List (Except MapError Entry))) =
      .ok (found.map .ok) ↔ items = found.map .ok := by
  constructor
  · intro h
    exact eq_map_ok_of_map_ofItem (Except.ok.inj h)
  · rintro rfl
    rw [map_ofItem_ok]

/-- **A scan of part of a view with an operator on top** returns what the operator makes, span by
span, of that part of the view below. -/
theorem Topped.scan_iff (htop : w.Topped setting operator v) (h : w.Sound) (hv : v.Sound)
    (hstore : store.Sound) (hregistry : w.schema.registry = store.registry)
    (hnil : operator [] = .ok [])
    (hkeys : KeepsKeys (Store.runOperators store.registry w.settings)) :
    v.scan store (some range) mode = .ok (found.map .ok) ↔
      (∀ clipped, w.top.range.intersect range = some clipped → ∀ p ∈ store.partitions,
        clipped.overlapsSpan p.low p.high = true → p.runs setting.id = true) ∧
      ∃ shown : List Entry, w.scan store (some range) mode = .ok (shown.map .ok) ∧
        perSpan operator shown store.bounds = .ok found := by
  rw [hv.scan_some htop.above, h.scan_some htop.below, htop.range]
  cases hclipped : w.top.range.intersect range with
  | none =>
      have hnone : perSpan operator [] store.bounds = .ok [] :=
        perSpan_eq_nil hnil fun _ _ e he => absurd he List.not_mem_nil
      constructor
      · intro hfound
        obtain rfl : found = [] := List.map_eq_nil_iff.1 (Except.ok.inj hfound).symm
        refine ⟨?_, [], rfl, hnone⟩
        intro clipped hclipped
        cases hclipped
      · rintro ⟨-, shown, hshown, hfound⟩
        obtain rfl : shown = [] := List.map_eq_nil_iff.1 (Except.ok.inj hshown).symm
        rw [hnone] at hfound
        rw [← Except.ok.inj hfound]
        rfl
  | some clipped =>
      have hscanner : (v.scanner mode).setRange clipped =
          ((w.scanner mode).setRange clipped).stack setting := by
        rw [htop.scanner]
        rfl
      have hbuild : store.registry.build setting = .ok operator := hregistry ▸ htop.build
      have hrange : ((w.scanner mode).setRange clipped).range.isEmpty = false :=
        KeyRange.isEmpty_of_intersect hclipped
      simp only [hscanner, scan_eq_ok_iff]
      rw [hstore.scan_stack hrange hbuild hnil hkeys]
      simp [Scanner.setRange]

/-! ### Restrictions and aggregates change places -/

section Restrict

variable {id : String} {options : Options}

theorem inputOptions_restrict (w : View) (range : KeyRange) (options : Options) :
    (w.restrict range).inputOptions options = w.inputOptions options := by
  rw [inputOptions, inputOptions, schema_restrict, format_restrict]

theorem outputFormat_restrict (w : View) (range : KeyRange) (d : Descriptor) (options : Options)
    (asked : Option Codec) :
    (w.restrict range).outputFormat d options asked = w.outputFormat d options asked := by
  simp only [outputFormat, outputCodec, schema_restrict, format_restrict]

theorem kind_operator_eq_empty (v : View) (d : Descriptor) (setting : Setting)
    (format : ValueReading) (mode : ScanMode) :
    (v.child (v.operatorLayer d setting format mode)).kind = .empty ↔ v.kind = .empty := by
  rw [kind_child]
  constructor
  · intro hempty
    split at hempty
    · assumption
    · rcases kindOf_cases d setting.id with hkind | hkind | hkind | hkind <;>
        simp [operatorLayer, hkind] at hempty
  · intro hempty
    rw [if_pos hempty]

theorem kind_restrict_eq_empty (v : View) (range : KeyRange) :
    (v.restrict range).kind = .empty ↔
      v.kind = .empty ∨ v.top.range.intersect range = none := by
  rw [kind_restrict]
  split <;> simp_all

theorem range_restrict {clipped : KeyRange} (h : v.top.range.intersect range = some clipped) :
    (v.restrict range).top.range = clipped := by
  simp only [restrict, h, child]

/-- Views that compile to the same scanner scan alike. -/
theorem Sound.scan_congr {u : View} (hv : v.Sound) (hu : u.Sound)
    (hkind : v.kind = .empty ↔ u.kind = .empty)
    (hscanner : v.kind ≠ .empty → v.scanner mode = u.scanner mode) :
    v.scan store none mode = u.scan store none mode := by
  by_cases hempty : v.kind = .empty
  · rw [hv.scan_of_empty hempty, hu.scan_of_empty (hkind.1 hempty)]
  · rw [hv.scan_eq hempty, hu.scan_eq (mt hkind.2 hempty), hscanner hempty]

/-- **An aggregate of a restriction scans as the restriction of the aggregate.** -/
theorem restrict_aggregateView (h : w.Sound) (hview : w.aggregateView id options = .ok v)
    (range : KeyRange) :
    ∃ u, (w.restrict range).aggregateView id options = .ok u ∧
      ∀ store mode, (v.restrict range).scan store none mode = u.scan store none mode := by
  obtain ⟨hv, -⟩ := h.aggregateView_cases hview
  obtain ⟨hstack, hkind⟩ := aggregateView_eq_ok hview
  obtain ⟨d, format, made, operator, hd, hinput, hformat, hbuild, rfl⟩ := stack_eq_ok hstack
  let setting : Setting := ⟨id, w.top.nextPriority, made⟩
  let u : View := (w.restrict range).child
    ((w.restrict range).operatorLayer d setting format w.top.mode)
  have hkindU : u.kind = .aggregated ∨ u.kind = .empty := by
    rw [kind_child] at hkind ⊢
    split
    · exact Or.inr rfl
    · next hopen =>
      have hbelow : w.kind ≠ .empty := by
        intro hempty
        exact hopen ((kind_restrict_eq_empty w range).2 (Or.inl hempty))
      rwa [if_neg hbelow] at hkind
  have hu : (w.restrict range).aggregateView id options = .ok u := by
    rw [aggregateView, stack]
    simp only [schema_restrict, valueType_restrict, nextPriority_restrict, mode_restrict,
      inputOptions_restrict, outputFormat_restrict, hd, hinput, hformat, hbuild, Except.mapError,
      bind, Except.bind, pure, Except.pure]
    exact if_pos hkindU
  refine ⟨u, hu, fun store mode => ?_⟩
  obtain ⟨huSound, -⟩ := (h.restrict range).aggregateView_cases hu
  refine (hv.restrict range).scan_congr huSound ?_ ?_
  · rw [kind_restrict_eq_empty, kind_operator_eq_empty, kind_operator_eq_empty,
      kind_restrict_eq_empty]
    rfl
  · intro hopen
    rw [ne_eq, kind_restrict_eq_empty, kind_operator_eq_empty, not_or] at hopen
    obtain ⟨clipped, hclipped⟩ := Option.ne_none_iff_exists'.1 hopen.2
    have hrange : w.top.range.intersect range = some clipped := hclipped
    have hview : w.isEmptyView = false := by simpa [isEmptyView] using hopen.1
    have hpart : (w.restrict range).isEmptyView = false := by
      simp [isEmptyView, kind_restrict_eq_empty, hopen.1, hrange]
    have hsettings : ((w.child (w.operatorLayer d setting format w.top.mode)).restrict
        range).settings = u.settings := by
      rw [settings_restrict, settings_child, settings_child, settings_restrict]
      simp [operatorLayer, hview, hpart]
    show Scanner.mk _ mode _ = Scanner.mk _ mode _
    rw [hsettings, range_restrict hclipped]
    exact congrArg (Scanner.mk · mode u.settings) (range_restrict hrange).symm

end Restrict

/-! ### Reads -/

/-- No built-in operators make up keys. -/
theorem keepsKeys_builtin {digest : Bytes → Bytes} {order : FieldOrder}
    (hregistry : store.registry = .builtin digest order) (settings : List Setting) :
    KeepsKeys (Store.runOperators store.registry settings) := by
  rw [hregistry]
  exact Store.keepsKeys_runOperators fun s _ operator hbuild => Registry.keepsKeys_builtin hbuild

/-- A scan of part of a view keeps to that part. -/
theorem Sound.contains_of_scan (h : w.Sound) (hstore : store.Sound)
    (hkeys : KeepsKeys (Store.runOperators store.registry w.settings)) {shown : List Entry}
    (hshown : w.scan store (some range) mode = .ok (shown.map .ok)) :
    ∀ e ∈ shown, range.contains e.key = true := by
  intro e he
  by_cases hempty : w.kind = .empty
  · obtain rfl := h.eq_nil_of_scan hempty hshown
    cases he
  · rw [h.scan_some hempty] at hshown
    cases hclipped : w.top.range.intersect range with
    | none =>
        rw [hclipped] at hshown
        obtain rfl : shown = [] := List.map_eq_nil_iff.1 (Except.ok.inj hshown).symm
        cases he
    | some clipped =>
        simp only [hclipped, scan_eq_ok_iff] at hshown
        have hin := hstore.contains_of_scan hkeys hshown (KeyRange.isEmpty_of_intersect hclipped) he
        have hboth := KeyRange.contains_of_intersect hclipped e.key
        simp only [Scanner.setRange] at hin
        rw [hin] at hboth
        exact (Bool.and_eq_true_iff.1 hboth.symm).2

/-- A read of a key finds the first entry of a scan of that key. -/
theorem lookup_of_scan {key : Value} {bytes : Bytes} (hkey : v.encodeKey key = .ok bytes)
    (hscan : v.scan store (some (KeyRange.exact bytes)) v.top.mode = .ok (found.map .ok)) :
    v.lookup store key = .ok found.head? := by
  rw [lookup, hkey]
  show v.firstEntry store (some (KeyRange.exact bytes)) v.top.mode = _
  rw [firstEntry_eq, hscan]
  cases found with
  | nil => rfl
  | cons e found => rfl

/-- **What holds of parts of an aggregate**: they gather parts of the view below, span by span. -/
theorem Topped.scan_plain {value : List Entry → Except OperatorError Bytes}
    (htop : w.Topped setting (gather value) v) (h : w.Sound) (hv : v.Sound) (hstore : store.Sound)
    (hregistry : w.schema.registry = store.registry) (hsafe : EntrywiseSafe value)
    (hlocal : ∀ s ∈ w.settings, store.registry.KeyLocal s)
    (hfound : v.scan store none mode = .ok (found.map .ok)) :
    ∃ shown : List Entry, w.scan store none mode = .ok (shown.map .ok) ∧
      perSpan (gather value) shown store.bounds = .ok found ∧
      ∀ range : KeyRange, ∃ part : List Entry,
        v.scan store (some range) mode = .ok (part.map .ok) ∧
        perSpan (gather value) (shown.filter fun e => range.contains e.key) store.bounds =
          .ok part := by
  have hkeys := Store.keepsKeys_of_local hlocal
  rw [← hv.scan_full] at hfound
  obtain ⟨hruns, shown, hshown, hgathered⟩ :=
    (htop.scan_iff h hv hstore hregistry gather_nil hkeys).1 hfound
  rw [h.scan_full] at hshown
  refine ⟨shown, hshown, hgathered, fun range => ?_⟩
  obtain ⟨part, hpart⟩ := exists_perSpan_filter hsafe hgathered fun e => range.contains e.key
  refine ⟨part, (htop.scan_iff h hv hstore hregistry gather_nil hkeys).2 ⟨?_, _, ?_, hpart⟩, hpart⟩
  · intro clipped hclipped p hp hmeets
    -- a partition that the part meets is met by the whole view, which fails on none
    have hwhole : w.top.range.intersect KeyRange.full = some w.top.range := by
      rw [KeyRange.intersect_full, h.searchable]
      rfl
    exact hruns _ hwhole p hp (KeyRange.overlapsSpan_of_intersect hclipped hmeets)
  · exact h.scan_part hstore hlocal hshown range

/-- **A read of a key of an aggregate** finds the aggregate of the entries of that key. -/
theorem Topped.reads_key {value : List Entry → Except OperatorError Bytes}
    (htop : w.Topped setting (gather value) v) (h : w.Sound) (hv : v.Sound) (hstore : store.Sound)
    (hregistry : w.schema.registry = store.registry) (hmode : v.top.mode = w.top.mode)
    (hkeys : KeepsKeys (Store.runOperators store.registry w.settings))
    {key : Value} {bytes : Bytes} (hkey : v.encodeKey key = .ok bytes)
    (hkeyBelow : w.encodeKey key = .ok bytes)
    (hfound : v.scan store (some (KeyRange.exact bytes)) v.top.mode = .ok (found.map .ok)) :
    ∃ shown : List Entry,
      w.scan store (some (KeyRange.exact bytes)) v.top.mode = .ok (shown.map .ok) ∧
      gather value shown = .ok found ∧
      w.containsKey store key = .ok (!shown.isEmpty) ∧
      v.containsKey store key = .ok (!shown.isEmpty) ∧
      v.get store key =
        (match found.head? with
          | none => .ok none
          | some e => (v.decodeValue e.value).map some) := by
  obtain ⟨-, shown, hshown, hgathered⟩ :=
    (htop.scan_iff h hv hstore hregistry gather_nil hkeys).1 hfound
  have hone : ∀ e ∈ shown, e.key = bytes := by
    intro e he
    exact (KeyRange.contains_exact bytes e.key).1 (h.contains_of_scan hstore hkeys hshown e he)
  have hgather : gather value shown = .ok found := by
    rw [← perSpan_of_key gather_nil hstore.tiles (by simp) hone]
    exact hgathered
  have hbelow : w.containsKey store key = .ok shown.head?.isSome := by
    rw [hmode] at hshown
    exact containsKey_of_lookup (lookup_of_scan hkeyBelow hshown)
  have habove := lookup_of_scan hkey hfound
  have hsame : found.head?.isSome = !shown.isEmpty := by
    rcases gather_eq_ok hgather with ⟨rfl, rfl⟩ | ⟨last, bytes, hlast, -, rfl⟩
    · rfl
    · cases shown with
      | nil => cases hlast
      | cons e shown => rfl
  refine ⟨shown, hshown, hgather, ?_, ?_, get_of_lookup habove⟩
  · rw [hbelow]
    cases shown <;> rfl
  · rw [containsKey_of_lookup habove, hsame]

/-! ### What reads of an aggregate find -/

/-- **Reads of an aggregate narrow the range beneath it.**  The view below was derived in any way
from the map of a store that has been changed in any way, and one of the three aggregates is on top
of it.  Restricting the aggregate is aggregating the restriction; what it shows then, if nothing
fails, is gathered span by span from what the restriction shows; and a read of a key finds what is
gathered of the entries of that key alone, if there are any.  When no aggregate is further below,
nothing fails in a restriction if nothing fails in the whole view; and a restriction that splits no
partition selects from what the whole view shows. -/
theorem aggregateView_reads (digest : Bytes → Bytes) (order : FieldOrder) (layout : StoreLayout)
    (calls : List StoreCall) (schema : Schema) (hregistry : schema.registry = .builtin digest order)
    (steps : List Step) (w : View) (hbelow : (View.base schema).derived steps = .ok w) (id : String)
    (options : Options) (hid : id ∈ ["count", "checksum", "stats"]) (v : View)
    (hview : w.aggregateView id options = .ok v) :
    let store := (Store.ofLayout layout (.builtin digest order)).run calls
    (∀ range, ∃ u, (w.restrict range).aggregateView id options = .ok u ∧
      ∀ mode, (v.restrict range).scan store none mode = u.scan store none mode) ∧
    ∃ value : List Entry → Except OperatorError Bytes,
      (∀ setting ∈ v.top.setting,
        (Registry.builtin digest order).build setting = .ok (gather value)) ∧
      (∀ (range : KeyRange) (mode : ScanMode) (found : List Entry),
        (v.restrict range).scan store none mode = .ok (found.map .ok) →
        ∃ shown : List Entry, (w.restrict range).scan store none mode = .ok (shown.map .ok) ∧
          perSpan (gather value) shown store.bounds = .ok found) ∧
      (∀ (key : Value) (bytes : Bytes) (found : List Entry), v.encodeKey key = .ok bytes →
        let one := KeyRange.exact bytes
        (v.restrict one).scan store none v.top.mode = .ok (found.map .ok) →
        ∃ shown : List Entry, (w.restrict one).scan store none v.top.mode = .ok (shown.map .ok) ∧
          gather value shown = .ok found ∧
          w.containsKey store key = .ok (!shown.isEmpty) ∧
          v.containsKey store key = .ok (!shown.isEmpty) ∧
          v.get store key =
            (match found.head? with
              | none => .ok none
              | some e => (v.decodeValue e.value).map some)) ∧
      ((∀ layer ∈ w.layers, layer.kind ≠ .aggregated) →
        ∀ (mode : ScanMode) (found : List Entry), v.scan store none mode = .ok (found.map .ok) →
        ∃ shown : List Entry, w.scan store none mode = .ok (shown.map .ok) ∧
          perSpan (gather value) shown store.bounds = .ok found ∧
          ∀ range : KeyRange, ∃ part : List Entry,
            (v.restrict range).scan store none mode = .ok (part.map .ok) ∧
            perSpan (gather value) (shown.filter fun e => range.contains e.key) store.bounds =
              .ok part ∧
            (Splits range shown store.bounds →
              part = found.filter fun e => range.contains e.key)) := by
  intro store
  have h : w.Sound := (Sound.base schema).derived hbelow
  have hstore : store.Sound := Store.sound_run layout _ calls
  have hstoreRegistry : store.registry = .builtin digest order := Store.registry_run _ calls
  have hbelowRegistry : w.schema.registry = .builtin digest order :=
    (schema_derived hbelow).symm ▸ hregistry
  have hsame : w.schema.registry = store.registry := hbelowRegistry.trans hstoreRegistry.symm
  have hkeys := keepsKeys_builtin hstoreRegistry w.settings
  refine ⟨?_, ?_⟩
  · intro range
    obtain ⟨u, hu, hscan⟩ := restrict_aggregateView h hview range
    exact ⟨u, hu, hscan store⟩
  obtain ⟨hv, hschema, hmode, ⟨hempty, habove, hnone⟩ | ⟨setting, operator, hsetting, htop⟩⟩ :=
    h.aggregateView_cases hview
  · -- an empty view shows nothing, below the aggregate or above
    have hbounds : perSpan (gather fun _ => .ok []) [] store.bounds = .ok [] :=
      perSpan_eq_nil gather_nil fun _ _ e he => absurd he List.not_mem_nil
    refine ⟨fun _ => .ok [], by simp [hnone], ?_, ?_, ?_⟩
    · intro range mode found hfound
      rw [hv.scan_restrict] at hfound
      obtain rfl := hv.eq_nil_of_scan habove hfound
      rw [h.scan_restrict, h.scan_of_empty hempty]
      exact ⟨[], rfl, hbounds⟩
    · intro key bytes found hkey one hfound
      rw [hv.scan_restrict] at hfound
      have hkeyBelow : w.encodeKey key = .ok bytes := by rwa [encodeKey, ← hschema]
      have hlookup := lookup_of_scan hkey hfound
      have hscanBelow : w.scan store (some one) w.top.mode = .ok (([] : List Entry).map .ok) :=
        h.scan_of_empty hempty _
      have hlookupBelow := lookup_of_scan hkeyBelow hscanBelow
      obtain rfl := hv.eq_nil_of_scan habove hfound
      rw [h.scan_restrict, h.scan_of_empty hempty]
      exact ⟨[], rfl, rfl, containsKey_of_lookup hlookupBelow, containsKey_of_lookup hlookup,
        get_of_lookup hlookup⟩
    · intro _ mode found hfound
      obtain rfl := hv.eq_nil_of_scan habove hfound
      refine ⟨[], h.scan_of_empty hempty none, hbounds, ?_⟩
      intro range
      refine ⟨[], ?_, hbounds, fun _ => rfl⟩
      rw [hv.scan_restrict, hv.scan_of_empty habove]
      rfl
  · obtain ⟨value, rfl, hsafe⟩ := Registry.gather_of_build (hsetting ▸ hid)
      (congrArg (Registry.find? · setting.id) hbelowRegistry) htop.build
    refine ⟨value, ?_, ?_, ?_, ?_⟩
    · intro other hother
      obtain rfl : setting = other := Option.some.inj (htop.top.symm.trans hother)
      rw [← hbelowRegistry]
      exact htop.build
    · intro range mode found hfound
      rw [hv.scan_restrict] at hfound
      rw [h.scan_restrict]
      exact ((htop.scan_iff h hv hstore hsame gather_nil hkeys).1 hfound).2
    · intro key bytes found hkey one hfound
      rw [hv.scan_restrict] at hfound
      rw [h.scan_restrict]
      have hkeyBelow : w.encodeKey key = .ok bytes := by rwa [encodeKey, ← hschema]
      exact htop.reads_key h hv hstore hsame hmode hkeys hkey hkeyBelow hfound
    · intro hplain mode found hfound
      have hlocal : ∀ s ∈ w.settings, store.registry.KeyLocal s := by
        rw [hstoreRegistry]
        exact keyLocal_of_plain h hbelowRegistry hplain order
      obtain ⟨shown, hshown, hgathered, hparts⟩ :=
        htop.scan_plain h hv hstore hsame hsafe hlocal hfound
      refine ⟨shown, hshown, hgathered, fun range => ?_⟩
      obtain ⟨part, hscan, hpart⟩ := hparts range
      rw [hv.scan_restrict]
      exact ⟨part, hscan, hpart, fun hsplits => perSpan_filter_of_splits hsplits hgathered hpart⟩

/-- Of two keys in one partition, counted together as two, the first is counted alone as one. -/
theorem aggregateView_reads_count :
    let one := Codec.LongWord.write 1
    let two := Codec.LongWord.write 2
    let store := (Store.ofLayout StoreLayout.standard (.builtin id)).run
      [.writeBatch [.put one one, .put two two]]
    let schema : Schema := ⟨.long, .long, Settings.standard, .builtin id⟩
    ∃ v, (View.base schema).aggregateView "count" [] = .ok v ∧
      v.get store (.int 1) = .ok (some (.int 1)) ∧ v.get store (.int 2) = .ok (some (.int 1)) := by
  intro one two store schema
  let v : View := (View.base schema).child
    ⟨.aggregated, some ⟨"count", firstPriority, [("key_codec", "long"),
      ("value_input_codec", "long")]⟩,
      KeyRange.full, .latest, .long, .coded .long, firstPriority + 1⟩
  have hview : (View.base schema).aggregateView "count" [] = .ok v := by
    simp only [schema, v, Registry.builtin_eq]
    rfl
  have hstore : store =
      ⟨[⟨none, none, [(one, ⟨⟨one, 1⟩, []⟩), (two, ⟨⟨two, 2⟩, []⟩)], (Registry.builtin id).ids⟩],
        .builtin id, Limits.standard, some 1, 2⟩ := rfl
  have hone : (v.restrict (KeyRange.exact one)).scan store none .latest =
      .ok ([⟨one, writeCount 1, 1⟩].map .ok) := by
    rw [hstore, Registry.builtin_eq]
    rfl
  have htwo : (v.restrict (KeyRange.exact two)).scan store none .latest =
      .ok ([⟨two, writeCount 1, 2⟩].map .ok) := by
    rw [hstore, Registry.builtin_eq]
    rfl
  obtain ⟨-, value, -, -, hreads, -⟩ := aggregateView_reads id .asRead StoreLayout.standard
    [.writeBatch [.put one one, .put two two]] schema rfl [] (View.base schema) rfl "count" []
    (by decide) v hview
  obtain ⟨-, -, -, -, -, hgetOne⟩ := hreads (.int 1) one _ rfl hone
  obtain ⟨-, -, -, -, -, hgetTwo⟩ := hreads (.int 2) two _ rfl htwo
  exact ⟨v, hview, hgetOne, hgetTwo⟩

/-- **A read of a key may find what iteration does not show**: the aggregate of a partition has the
last of its keys, and the other keys are found all the same. -/
theorem containsKey_of_hidden_key :
    let one := Codec.LongWord.write 1
    let two := Codec.LongWord.write 2
    let store := (Store.ofLayout StoreLayout.standard (.builtin id)).run
      [.writeBatch [.put one one, .put two two]]
    let schema : Schema := ⟨.long, .long, Settings.standard, .builtin id⟩
    ∃ v, (View.base schema).aggregateView "count" [] = .ok v ∧
      ∃ found : List Entry, v.scan store none v.top.mode = .ok (found.map .ok) ∧
        v.encodeKey (.int 1) = .ok one ∧
        ¬ (v.containsKey store (.int 1) = .ok true ↔ ∃ e ∈ found, e.key = one) := by
  intro one two store schema
  let v : View := (View.base schema).child
    ⟨.aggregated, some ⟨"count", firstPriority, [("key_codec", "long"),
      ("value_input_codec", "long")]⟩,
      KeyRange.full, .latest, .long, .coded .long, firstPriority + 1⟩
  have hview : (View.base schema).aggregateView "count" [] = .ok v := by
    simp only [schema, v, Registry.builtin_eq]
    rfl
  have hstore : store =
      ⟨[⟨none, none, [(one, ⟨⟨one, 1⟩, []⟩), (two, ⟨⟨two, 2⟩, []⟩)], (Registry.builtin id).ids⟩],
        .builtin id, Limits.standard, some 1, 2⟩ := rfl
  have hscan : v.scan store none .latest = .ok ([⟨two, writeCount 2, 2⟩].map .ok) := by
    rw [hstore, Registry.builtin_eq]
    rfl
  have hcontains : v.containsKey store (.int 1) = .ok true := by
    rw [hstore, Registry.builtin_eq]
    rfl
  refine ⟨v, hview, _, hscan, rfl, ?_⟩
  intro hiff
  obtain ⟨e, he, hkey⟩ := hiff.1 hcontains
  obtain rfl := List.mem_singleton.1 he
  exact absurd hkey (by decide)

end View

end Strata
