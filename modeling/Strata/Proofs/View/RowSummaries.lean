/-
**One summary of every key.**

The operator that summarizes rows goes through what a scan returns and closes a row when the key
changes.  A view with it on top asks for all versions, whatever the view below was made for, and
what that shows is in order, whichever filters are in it; so a row is all that the view below shows
of a key, on the partition of that key, and a key has one row.  Later restrictions narrow the range
of the scan and later samples drop whole summaries: neither takes versions out of a row.

* `rows_of_key` — entries of one key are one row;
* `View.Step.Selects` — derivations that keep entries for their key and timestamp;
* `View.SumsUp`, `View.LeavesOne` — what is left of the versions of a key;
* `View.OneOfEach` — **what holds of a view of summaries and of all that is selected from it**;
* `View.row_summaries` — **the entries of such views**.
-/

import Strata.Proofs.KeyRange.Algebra
import Strata.Proofs.View.AggregateScan
import Strata.Proofs.View.Sampled

set_option relaxedAutoImplicit false
set_option autoImplicit false

namespace Strata

/-! ### Rows of one key -/

/-- Entries of one key are one row. -/
theorem rows_of_key {entries : List Entry} {key : Bytes} (hne : entries ≠ [])
    (h : ∀ e ∈ entries, e.key = key) : rows entries = [entries] := by
  induction entries with
  | nil => exact absurd rfl hne
  | cons e rest ih =>
      obtain ⟨he, hrest⟩ := List.forall_mem_cons.1 h
      cases rest with
      | nil => rfl
      | cons x rest =>
          obtain ⟨row, others, hrow, hrows⟩ :=
            rows_cons_cons ((hrest x List.mem_cons_self).trans he.symm) rest
          rw [ih (List.cons_ne_nil x rest) hrest] at hrow
          obtain ⟨hhead, hothers⟩ := List.cons.inj hrow
          rw [hrows, ← hothers, ← List.tail_eq_of_cons_eq hhead]

namespace View

variable {v w u : View} {store : Store} {digest : Bytes → Bytes} {order : FieldOrder}
  {mode : ScanMode}
  {versions found : List Entry} {keeps : List (Entry → Bool)} {keep : Entry → Bool} {key : Bytes}
  {step : Step}

/-! ### What is selected -/

/-- The derivation selects entries of a view: those that it keeps. -/
inductive Step.Selects (digest : Bytes → Bytes) (codec : Codec) : Step → (Entry → Bool) → Prop
  | restrict {step : Step} {range : KeyRange} (h : step.range? codec = some range) :
      Selects digest codec step fun e => range.contains e.key
  | sample {s : Sample} (hs : s.Accepted) : Selects digest codec (.sample s) (s.holds digest)
  | during {fromTimestamp toTimestamp : Option Nat}
      (hs : (Sample.whole.during fromTimestamp toTimestamp).Accepted) :
      Selects digest codec (.during fromTimestamp toTimestamp)
        ((Sample.whole.during fromTimestamp toTimestamp).holds digest)

/-- The test hangs on the key and the timestamp of an entry. -/
def ByStamp (keep : Entry → Bool) : Prop := ∀ e e' : Entry, e.stamp = e'.stamp → keep e = keep e'

theorem Step.Selects.byStamp {codec : Codec} (h : step.Selects digest codec keep) :
    ByStamp keep := by
  intro e e' hstamp
  obtain ⟨hkey, htimestamp⟩ := Prod.mk.inj hstamp
  cases h with
  | restrict => simp only [hkey]
  | sample | during => rw [Sample.holds, Sample.holds, hkey, htimestamp]

/-- It restricts the view or samples it. -/
theorem Step.Selects.cases (h : step.Selects digest v.schema.keyCodec keep)
    (hstep : step.apply v = .ok w) :
    (∃ range, w = v.restrict range ∧ keep = fun e => range.contains e.key) ∨
      ∃ s : Sample, s.Accepted ∧ v.sample s = .ok w ∧ keep = s.holds digest := by
  cases h with
  | @restrict step range h =>
      rcases Step.apply_spec hstep with ⟨range', hrange, -, rfl⟩ | ⟨_, _, _, _, hnone, -⟩
      · obtain rfl := Option.some.inj (h.symm.trans hrange)
        exact Or.inl ⟨_, rfl, rfl⟩
      · cases h.symm.trans hnone
  | sample hs => exact Or.inr ⟨_, hs, hstep, rfl⟩
  | during hs => exact Or.inr ⟨_, hs, hstep, rfl⟩

/-! ### What is left of one key -/

/-- The entry sums up the versions of a key: it bears the stamp of the newest, and its value is the
summary of the numbers among their values, added newest first. -/
structure SumsUp (v : View) (versions : List Entry) (s : Summary Float) (e : Entry) : Prop where
  stamp : versions.head?.map Entry.stamp = some e.stamp
  numbers : ∃ values : List Value,
    List.Forall₂ (fun x value => v.decodeValue x.value = .ok value) versions values ∧
    s = (values.filterMap Value.number?).foldl Summary.add Summary.empty
  value : e.value = writeSummary s

theorem SumsUp.stamp_eq {s : Summary Float} {e newest : Entry} (h : v.SumsUp versions s e)
    (hnewest : newest ∈ versions.head?) : newest.stamp = e.stamp := by
  have hhead := h.stamp
  rw [hnewest] at hhead
  exact Option.some.inj hhead

/-- One entry is left of the versions of a key, which sums them up, or none is left, for there are
no versions or the newest is not kept. -/
def LeavesOne (v : View) (keeps : List (Entry → Bool)) (versions found : List Entry) : Prop :=
  (found = [] ∧ ∀ newest ∈ versions.head?, ∃ keep ∈ keeps, keep newest = false) ∨
    ∃ e s, found = [e] ∧ v.SumsUp versions s e ∧ ∀ keep ∈ keeps, keep e = true

/-- One more selection. -/
theorem LeavesOne.filter (h : v.LeavesOne keeps versions found) (hkeep : ByStamp keep) :
    v.LeavesOne (keeps ++ [keep]) versions (found.filter keep) := by
  rcases h with ⟨rfl, hdropped⟩ | ⟨e, s, rfl, hsum, hkept⟩
  · refine Or.inl ⟨rfl, fun newest hnewest => ?_⟩
    obtain ⟨other, hother, hfalse⟩ := hdropped newest hnewest
    exact ⟨other, List.mem_append_left _ hother, hfalse⟩
  · cases hone : keep e with
    | true =>
        refine Or.inr ⟨e, s, by simp [hone], hsum, ?_⟩
        simpa [or_imp, forall_and, hone] using hkept
    | false =>
        refine Or.inl ⟨by simp [hone], fun newest hnewest => ?_⟩
        exact ⟨keep, by simp, (hkeep newest e (hsum.stamp_eq hnewest)).trans hone⟩

/-- An entry is left of the versions of a key if there are some and the newest is kept. -/
theorem LeavesOne.ne_nil_iff (h : v.LeavesOne keeps versions found)
    (hkeeps : ∀ keep ∈ keeps, ByStamp keep) :
    found ≠ [] ↔ ∃ newest ∈ versions.head?, ∀ keep ∈ keeps, keep newest = true := by
  rcases h with ⟨rfl, hdropped⟩ | ⟨e, s, rfl, hsum, hkept⟩
  · refine iff_of_false (fun hne => hne rfl) ?_
    rintro ⟨newest, hnewest, hall⟩
    obtain ⟨keep, hkeep, hfalse⟩ := hdropped newest hnewest
    exact Bool.false_ne_true (hfalse.symm.trans (hall keep hkeep))
  · refine iff_of_true (List.cons_ne_nil e []) ?_
    obtain ⟨newest, hnewest, hstamp⟩ := Option.map_eq_some_iff.1 hsum.stamp
    exact ⟨newest, hnewest, fun keep hkeep =>
      (hkeeps keep hkeep newest e hstamp).trans (hkept keep hkeep)⟩

/-! ### Scans of one key -/

/-- A read of one key of a restriction is one of the view below it if the range holds the key. -/
theorem Sound.scan_restrict_exact (h : v.Sound) (range : KeyRange) (key : Bytes) :
    (v.restrict range).scan store (some (KeyRange.exact key)) mode =
      if range.contains key then v.scan store (some (KeyRange.exact key)) mode else .ok [] := by
  have hrestrict := h.restrict range
  by_cases hempty : v.kind = .empty
  · rw [hrestrict.scan_of_empty ((kind_restrict_eq_empty v range).2 (Or.inl hempty)),
      h.scan_of_empty hempty, ite_self]
  · rw [h.scan_some hempty]
    cases hclipped : v.top.range.intersect range with
    | none =>
        have hnot := KeyRange.not_contains_of_intersect_eq_none hclipped key
        rw [hrestrict.scan_of_empty ((kind_restrict_eq_empty v range).2 (Or.inr hclipped))]
        split
        · next hin =>
          have hout : v.top.range.contains key = false := by simpa [hin] using hnot
          simp [KeyRange.intersect_exact, hout]
        · rfl
    | some clipped =>
        have hkind : (v.restrict range).kind ≠ .empty := by
          simp [kind_restrict_eq_empty, hempty, hclipped]
        have hscanner : ((v.restrict range).scanner mode).setRange (KeyRange.exact key) =
            (v.scanner mode).setRange (KeyRange.exact key) := by
          rw [View.scanner, View.scanner, settings_restrict]
          rfl
        rw [hrestrict.scan_some hkind, range_restrict hclipped, KeyRange.intersect_exact,
          KeyRange.intersect_exact, KeyRange.contains_of_intersect hclipped]
        cases v.top.range.contains key <;> cases range.contains key <;> simp [hscanner]

/-- A read of one key of a view returns entries of that key. -/
theorem Sound.key_of_scan_exact (h : v.Sound) (hstore : store.Sound)
    (hregistry : store.registry = .builtin digest order)
    (hfound : v.scan store (some (KeyRange.exact key)) mode = .ok (found.map .ok)) :
    ∀ e ∈ found, e.key = key := by
  intro e he
  have hkeys := keepsKeys_builtin hregistry v.settings
  exact (KeyRange.contains_exact key e.key).1 (h.contains_of_scan hstore hkeys hfound e he)

/-- What an operator on top of a view makes of one key is what it makes of the entries of that key
that are below. -/
theorem Topped.scan_exact {setting : Setting} {operator : Operator}
    (htop : v.Topped setting operator w) (h : v.Sound) (hw : w.Sound) (hstore : store.Sound)
    (hregistry : store.registry = .builtin digest order)
    (hsame : v.schema.registry = .builtin digest order) (hnil : operator [] = .ok [])
    (hfound : w.scan store (some (KeyRange.exact key)) mode = .ok (found.map .ok)) :
    ∃ shown : List Entry, v.scan store (some (KeyRange.exact key)) mode = .ok (shown.map .ok) ∧
      (∀ e ∈ shown, e.key = key) ∧ operator shown = .ok found := by
  have hkeys := keepsKeys_builtin hregistry v.settings
  obtain ⟨-, shown, hshown, hmade⟩ :=
    (htop.scan_iff h hw hstore (hsame.trans hregistry.symm) hnil hkeys).1 hfound
  have hone := h.key_of_scan_exact hstore hregistry hshown
  refine ⟨shown, hshown, hone, ?_⟩
  rw [← perSpan_of_key hnil hstore.tiles (by simp) hone]
  exact hmade

/-! ### The view of summaries -/

/-- The operator that summarizes rows, as it is built for a view. -/
theorem exists_rowStats {codec : Codec} (hregistry : v.schema.registry = .builtin digest order)
    (htype : v.top.valueType ≠ .summary) (hformat : v.top.format = .coded codec) :
    ∃ d options, (Registry.builtin digest order).descriptor "row_stats" = .ok d ∧
      d.kind ≠ .aggregate ∧ d.outputType v.top.valueType = .summary ∧
      (Registry.builtin digest order).build ⟨"row_stats", v.top.nextPriority, options⟩ =
        .ok (fun entries => pick (summarizeRow codec) (rows entries)) ∧
      v.rowStats = .ok (v.child (v.operatorLayer d ⟨"row_stats", v.top.nextPriority, options⟩
        .summary .allVersions)) := by
  let d : Descriptor := ⟨"row_stats", .rowTransform, Registry.decodable, some .summary⟩
  have hd : (Registry.builtin digest order).descriptor "row_stats" = .ok d := by
    rw [Registry.builtin_eq]
    rfl
  have hinput : d.checkInput v.top.valueType = .ok () := by
    cases htypes : v.top.valueType with
    | summary => exact absurd htypes htype
    | _ => rfl
  have hcodec := Options.codec_of_get?
    ((get?_inputOptions (v := v) namesNoCodec_nil).2.1 codec hformat)
  have hbuild : (Registry.builtin digest order).build
      ⟨"row_stats", v.top.nextPriority, v.inputOptions []⟩ =
        .ok (fun entries => pick (summarizeRow codec) (rows entries)) := by
    have hrow : (Registry.builtin digest order).build
        ⟨"row_stats", v.top.nextPriority, v.inputOptions []⟩ = rowSummary (v.inputOptions []) := by
      rw [Registry.builtin_eq]
      rfl
    rw [hrow, rowSummary, hcodec]
    rfl
  refine ⟨d, _, hd, nofun, rfl, hbuild, ?_⟩
  exact stack_of_build (hregistry ▸ hd) hinput rfl (hregistry ▸ hbuild) .allVersions

/-- The summary of a row sums up the versions of its key. -/
theorem leavesOne_of_row {codec : Codec} (hformat : v.top.format = .coded codec)
    (hone : ∀ e ∈ versions, e.key = key)
    (h : pick (summarizeRow codec) (rows versions) = .ok found) :
    v.LeavesOne [] versions found := by
  cases versions with
  | nil =>
      obtain rfl : [] = found := Except.ok.inj h
      exact Or.inl ⟨rfl, by simp⟩
  | cons newest others =>
      rw [rows_of_key (List.cons_ne_nil newest others) hone] at h
      obtain ⟨made, rest, hmade, hrest, rfl⟩ := pick_cons_eq_ok h
      obtain rfl : [] = rest := Except.ok.inj hrest
      obtain ⟨s, hs, hmade⟩ := bind_eq_ok.1 hmade
      obtain rfl : some { newest with value := writeSummary s } = made := Except.ok.inj hmade
      obtain ⟨values, hvalues, rfl⟩ := summarize_iff.1 hs
      refine Or.inr ⟨_, _, rfl, ⟨rfl, ⟨values, hvalues.imp fun x value hvalue => ?_, rfl⟩, rfl⟩,
        by simp⟩
      rw [decodeValue, hformat, ValueReading.decode, hvalue]
      rfl

/-- **What holds of a view of summaries and of all that is selected from it.**  It asks for all
versions, and of the versions of each key one entry is left, or none. -/
structure OneOfEach (v : View) (store : Store) (keeps : List (Entry → Bool)) (w : View) : Prop where
  sound : w.Sound
  schema : w.schema = v.schema
  mode : w.top.mode = .allVersions
  valueType : w.top.valueType = .summary
  format : w.top.format = .summary
  keyLocal : ∀ s ∈ w.settings, store.registry.KeyLocal s
  byStamp : ∀ keep ∈ keeps, ByStamp keep
  leaves : ∀ (key : Bytes) (versions found : List Entry),
    v.scan store (some (KeyRange.exact key)) .allVersions = .ok (versions.map .ok) →
    w.scan store (some (KeyRange.exact key)) .allVersions = .ok (found.map .ok) →
    v.LeavesOne keeps versions found

section OneOfEach

variable (hstore : store.Sound) (hregistry : store.registry = .builtin digest order)

include hregistry

/-- The operators of a view look at one key at a time if those below do and the new one does. -/
theorem keyLocal_child {d : Descriptor} {setting : Setting} {operator : Operator}
    {format : ValueReading} (hlocal : ∀ s ∈ v.settings, store.registry.KeyLocal s)
    (hbuild : (Registry.builtin digest order).build setting = .ok operator)
    (hoperator : KeyLocal operator) :
    ∀ s ∈ (v.child (v.operatorLayer d setting format mode)).settings,
      store.registry.KeyLocal s := by
  intro s hs
  rw [settings_child, List.mem_append] at hs
  rcases hs with hs | hs
  · exact hlocal s hs
  · obtain rfl : s = setting := by
      simp only [operatorLayer] at hs
      split at hs <;> simp_all
    intro other hother
    rw [hregistry, hbuild] at hother
    exact Except.ok.inj hother ▸ hoperator

include hstore

/-- A view of summaries. -/
theorem OneOfEach.rowStats (h : v.Sound) (hschema : v.schema.registry = .builtin digest order)
    (hlocal : ∀ s ∈ v.settings, store.registry.KeyLocal s)
    (htype : v.top.valueType ≠ .summary) {codec : Codec} (hformat : v.top.format = .coded codec) :
    ∃ w, v.rowStats = .ok w ∧ v.OneOfEach store [] w := by
  obtain ⟨d, options, hd, hkind, houtput, hbuild, hw⟩ := exists_rowStats hschema htype hformat
  have hsound := h.operator (hschema ▸ hd) options .summary .allVersions
  have hrow : KeyLocal fun entries => pick (summarizeRow codec) (rows entries) :=
    Registry.keyLocal_builtin hbuild fun d' hd' => Except.ok.inj (hd.symm.trans hd') ▸ hkind
  refine ⟨_, hw, hsound, rfl, rfl, houtput, rfl, keyLocal_child hregistry hlocal hbuild hrow,
    by simp, ?_⟩
  intro key versions found hversions hfound
  rcases operatorLayer_cases v d .summary .allVersions (hschema ▸ hbuild) with
    ⟨hempty, habove, -⟩ | htop
  · obtain rfl := h.eq_nil_of_scan hempty hversions
    obtain rfl := hsound.eq_nil_of_scan habove hfound
    exact Or.inl ⟨rfl, by simp⟩
  · obtain ⟨shown, hshown, hone, hmade⟩ :=
      htop.scan_exact h hsound hstore hregistry hschema rfl hfound
    obtain rfl : shown = versions :=
      map_ok_injective (Except.ok.inj (hshown.symm.trans hversions))
    exact leavesOne_of_row hformat hone hmade

/-- A restriction of it. -/
theorem OneOfEach.restrict (hv : v.Sound) (h : v.OneOfEach store keeps w) (range : KeyRange) :
    v.OneOfEach store (keeps ++ [fun e => range.contains e.key]) (w.restrict range) := by
  have hkeep : ByStamp fun e => range.contains e.key := by
    intro e e' hstamp
    simp only [(Prod.mk.inj hstamp).1]
  refine ⟨h.sound.restrict range, ?_, ?_, ?_, ?_, ?_, ?_, ?_⟩
  · rw [schema_restrict, h.schema]
  · rw [mode_restrict, h.mode]
  · rw [valueType_restrict, h.valueType]
  · rw [format_restrict, h.format]
  · rw [settings_restrict]
    exact h.keyLocal
  · simpa [or_imp, forall_and, hkeep] using h.byStamp
  · intro key versions found hversions hfound
    rw [h.sound.scan_restrict_exact] at hfound
    split at hfound
    · next hin =>
      have hall : found.filter (fun e => range.contains e.key) = found := by
        refine List.filter_eq_self.2 fun e he => ?_
        rw [h.sound.key_of_scan_exact hstore hregistry hfound e he, hin]
      rw [← hall]
      exact (h.leaves key versions found hversions hfound).filter hkeep
    · next hout =>
      obtain rfl := List.map_eq_nil_iff.1 (Except.ok.inj hfound).symm
      refine Or.inl ⟨rfl, fun newest hnewest => ⟨_, List.mem_append_right _ List.mem_cons_self, ?_⟩⟩
      have hkey :=
        hv.key_of_scan_exact hstore hregistry hversions newest (List.mem_of_head? hnewest)
      simpa [hkey] using hout

/-- A sample of it. -/
theorem OneOfEach.sample (hschema : v.schema.registry = .builtin digest order)
    (h : v.OneOfEach store keeps w) {s : Sample} (hs : s.Accepted) (hu : w.sample s = .ok u) :
    v.OneOfEach store (keeps ++ [s.holds digest]) u := by
  have hsame : w.schema.registry = .builtin digest order := h.schema ▸ hschema
  obtain ⟨d, options, hd, hspelled, hsample⟩ := exists_sample hsame hs
  obtain rfl : d = ⟨"sampling", .filter, [], none⟩ := by
    rw [hsame, descriptor_sampling] at hd
    exact (Except.ok.inj hd).symm
  obtain rfl := Except.ok.inj (hsample.symm.trans hu)
  have hsound := h.sound.operator hd options w.top.format w.top.mode
  have hbuild : (Registry.builtin digest order).build _ = _ :=
    build_sampling hspelled hs w.top.nextPriority
  have hfilter : KeyLocal fun entries => .ok (entries.filter (s.holds digest)) :=
    Registry.keyLocal_builtin hbuild fun d hd => by
      rw [descriptor_sampling] at hd
      exact Except.ok.inj hd ▸ nofun
  have hselects : (Step.sample s).Selects digest v.schema.keyCodec (s.holds digest) := .sample hs
  have hkeep := hselects.byStamp
  refine ⟨hsound, h.schema, h.mode, h.valueType, h.format,
    keyLocal_child hregistry h.keyLocal hbuild hfilter, ?_, ?_⟩
  · simpa [or_imp, forall_and, hkeep] using h.byStamp
  intro key versions found hversions hfound
  rcases operatorLayer_cases w _ w.top.format w.top.mode (hsame ▸ hbuild) with
    ⟨hempty, habove, -⟩ | htop
  · obtain rfl := hsound.eq_nil_of_scan habove hfound
    exact (h.leaves key versions [] hversions (h.sound.scan_of_empty hempty _)).filter hkeep
  · obtain ⟨shown, hshown, -, hmade⟩ :=
      htop.scan_exact h.sound hsound hstore hregistry hsame rfl hfound
    obtain rfl : shown.filter (s.holds digest) = found := Except.ok.inj hmade
    exact (h.leaves key versions shown hversions hshown).filter hkeep

/-- **All that is selected from a view of summaries** leaves one entry of each key. -/
theorem OneOfEach.derived (hv : v.Sound) (hschema : v.schema.registry = .builtin digest order)
    {later : List Step} {more : List (Entry → Bool)}
    (hselect : List.Forall₂ (Step.Selects digest v.schema.keyCodec) later more)
    (h : v.OneOfEach store keeps w) (hu : w.derived later = .ok u) :
    v.OneOfEach store (keeps ++ more) u := by
  induction hselect generalizing keeps w with
  | nil =>
      obtain rfl := Except.ok.inj hu
      rwa [List.append_nil]
  | @cons step keep later more hstep _ ih =>
      obtain ⟨x, hx, hu⟩ := bind_eq_ok.1 hu
      have hnext : v.OneOfEach store (keeps ++ [keep]) x := by
        rcases (h.schema.symm ▸ hstep).cases hx with ⟨range, rfl, rfl⟩ | ⟨s, hs, hsample, rfl⟩
        · exact h.restrict hstore hregistry hv range
        · exact h.sample hstore hregistry hschema hs hsample
      have hall := ih hnext hu
      rwa [List.append_assoc] at hall

/-! ### The entries -/

omit hregistry in
/-- What such a view shows of a key is left of the versions that the view below shows of it. -/
theorem OneOfEach.filter_key (hv : v.Sound) (hlocal : ∀ s ∈ v.settings, store.registry.KeyLocal s)
    {all : List Entry} (hall : v.scan store none .allVersions = .ok (all.map .ok))
    (h : v.OneOfEach store keeps w) (hfound : w.scan store none .allVersions = .ok (found.map .ok))
    (key : Bytes) :
    v.LeavesOne keeps (all.filter fun e => e.key == key) (found.filter fun e => e.key == key) := by
  have hversions := hv.scan_part hstore hlocal hall (KeyRange.exact key)
  have hleft := h.sound.scan_part hstore h.keyLocal hfound (KeyRange.exact key)
  simp only [contains_exact_eq] at hversions hleft
  exact h.leaves key _ _ hversions hleft

end OneOfEach

/-- Where one entry is left of each key at most, the keys ascend strictly. -/
theorem pairwise_lt_of_leavesOne {versions : Bytes → List Entry}
    (hbefore : found.Pairwise Entry.Before)
    (h : ∀ key, v.LeavesOne keeps (versions key) (found.filter fun e => e.key == key)) :
    found.Pairwise fun a b => a.key < b.key := by
  rw [List.pairwise_iff_forall_sublist] at hbefore ⊢
  intro a b hsub
  refine (hbefore hsub).resolve_right fun hsame => ?_
  -- two entries of one key would both be left of it
  have hpair := hsub.filter fun e => e.key == a.key
  have hlength : (found.filter fun e => e.key == a.key).length ≤ 1 := by
    rcases h a.key with ⟨hnil, -⟩ | ⟨e, s, hone, -⟩
    · simp [hnil]
    · simp [hone]
  have htwo := hpair.length_le
  simp only [beq_self_eq_true, ← hsame.1, List.filter_cons_of_pos, List.filter_nil,
    List.length_cons, List.length_nil] at htwo
  omega

/-- **Summaries of rows are one of each key.**  The view was derived in any way from the map of a
store that has been changed in any way, without an aggregate, and its values are read by a codec; a
scan of all versions does not fail.  Then its rows can be summarized.  That view, and every view
that is derived from it by restrictions and samples, asks for all versions, and if it can be
scanned, it shows one entry of each key of which the view below shows versions, if the newest of
them is kept by all later selections, and none of other keys, in the order of the keys.  An entry
bears the timestamp of the newest version and the summary of the numbers among the values of all
versions, added newest first.  The size of such a view is the number of these entries. -/
theorem row_summaries (digest : Bytes → Bytes) (order : FieldOrder) (layout : StoreLayout)
    (calls : List StoreCall) (schema : Schema) (hregistry : schema.registry = .builtin digest order)
    (steps : List Step) (v : View) (hview : (View.base schema).derived steps = .ok v)
    (hplain : ∀ layer ∈ v.layers, layer.kind ≠ .aggregated) (htype : v.top.valueType ≠ .summary)
    (all : List Entry) :
    let store := (Store.ofLayout layout (.builtin digest order)).run calls
    let versions (key : Bytes) : List Entry := all.filter fun e => e.key == key
    v.scan store none .allVersions = .ok (all.map .ok) →
    (∀ key, (versions key).Pairwise fun a b => b.timestamp < a.timestamp) ∧
    ∃ w, v.rowStats = .ok w ∧ ∀ (later : List Step) (keeps : List (Entry → Bool)) (u : View),
      List.Forall₂ (Step.Selects digest schema.keyCodec) later keeps → w.derived later = .ok u →
      u.top.mode = .allVersions ∧ u.top.valueType = .summary ∧
      ∀ found : List Entry, u.scan store none u.top.mode = .ok (found.map .ok) →
        u.entries store = .ok (found.map u.decodeEntry) ∧
        found.Pairwise (fun a b => a.key < b.key) ∧
        (∀ key, (∃ e ∈ found, e.key = key) ↔
          ∃ newest ∈ (versions key).head?, ∀ keep ∈ keeps, keep newest = true) ∧
        (∀ e ∈ found, ∃ s, v.SumsUp (versions e.key) s e ∧
          u.decodeValue e.value = .ok (summaryValue { s with count := s.count % 2 ^ 64 })) ∧
        ∀ n, u.size store = .ok n → n = UInt64.ofNat found.length := by
  intro store versions hall
  have hstore : store.Sound := Store.sound_run layout _ calls
  have hstoreRegistry : store.registry = .builtin digest order := Store.registry_run _ calls
  have h : v.Sound := (Sound.base schema).derived hview
  have hschema : v.schema = schema := schema_derived hview
  have hviewRegistry : v.schema.registry = .builtin digest order := hschema.symm ▸ hregistry
  have hlocal : ∀ s ∈ v.settings, store.registry.KeyLocal s := by
    rw [hstoreRegistry]
    exact keyLocal_of_plain h hviewRegistry hplain order
  obtain ⟨codec, hformat⟩ : ∃ codec, v.top.format = .coded codec := by
    cases hformat : v.top.format with
    | coded codec => exact ⟨codec, rfl⟩
    | summary => exact absurd ((summary_iff_of_derived hview).2 hformat) htype
  obtain ⟨w, hw, hone⟩ :=
    OneOfEach.rowStats hstore hstoreRegistry h hviewRegistry hlocal htype hformat
  refine ⟨pairwise_newest_first (h.pairwise_before_scan hstore hstoreRegistry hall), w, hw,
    fun later keeps u hselect hu => ?_⟩
  rw [← hschema] at hselect
  have hone : v.OneOfEach store keeps u :=
    hone.derived hstore hstoreRegistry h hviewRegistry hselect hu
  refine ⟨hone.mode, hone.valueType, fun found hfound => ?_⟩
  have hentries := entries_of_scan hfound
  rw [hone.mode] at hfound
  have hleft := hone.filter_key hstore h hlocal hall hfound
  have hbefore := hone.sound.pairwise_before_scan hstore hstoreRegistry hfound
  refine ⟨hentries, pairwise_lt_of_leavesOne hbefore hleft, fun key => ?_, fun e he => ?_,
    fun n hn => ?_⟩
  · rw [← (hleft key).ne_nil_iff hone.byStamp, ne_eq, List.filter_eq_nil_iff]
    simp
  · have hin : e ∈ found.filter fun other => other.key == e.key := by simp [he]
    rcases hleft e.key with ⟨hnil, -⟩ | ⟨e', s, hall, hsum, -⟩
    · rw [hnil] at hin
      cases hin
    · rw [hall, List.mem_singleton] at hin
      subst hin
      refine ⟨s, hsum, ?_⟩
      rw [decodeValue, hone.format, ValueReading.decode, hsum.value, readSummary_writeSummary]
      rfl
  · have hsame : u.schema.registry = store.registry := by
      rw [hone.schema, hviewRegistry, hstoreRegistry]
    have hkeys := Store.keepsKeys_of_local hone.keyLocal
    obtain ⟨-, shown, hshown, rfl⟩ := (hone.sound.size_eq_ok_iff (hsame.trans hstoreRegistry)
      (iff_of_true hone.valueType hone.format) hstore hsame hkeys).1 hn
    rw [hone.mode, hfound] at hshown
    rw [map_ok_injective (Except.ok.inj hshown)]

/-- Two versions of one key and one of another, over two partitions: of the one key that a later
range holds there is one summary, of both versions, under the newer timestamp. -/
theorem row_summaries_long :
    let one := Codec.LongWord.write 1
    let two := Codec.LongWord.write 2
    let store := (Store.ofLayout ⟨[two], Limits.standard, some 2⟩ (.builtin id)).run
      [.writeBatch [.put two one, .put one two, .put one one]]
    let v := View.base ⟨.long, .long, Settings.standard, .builtin id⟩
    ∃ w e s, v.rowStats = .ok w ∧
      (w.restrict (KeyRange.exact one)).entries store = .ok [w.decodeEntry e] ∧
      e.stamp = (one, 3) ∧ v.SumsUp [⟨one, one, 3⟩, ⟨one, two, 2⟩] s e := by
  intro one two store v
  have hstore : store =
      ⟨[⟨none, some two, [(one, ⟨⟨one, 3⟩, [⟨two, 2⟩]⟩)], (Registry.builtin id).ids⟩,
        ⟨some two, none, [(two, ⟨⟨one, 1⟩, []⟩)], (Registry.builtin id).ids⟩],
        .builtin id, Limits.standard, some 2, 3⟩ := rfl
  let all : List Entry := [⟨one, one, 3⟩, ⟨one, two, 2⟩, ⟨two, one, 1⟩]
  have hall : v.scan store none .allVersions = .ok (all.map .ok) := by
    rw [hstore, Registry.builtin_eq]
    rfl
  let summarized : Layer :=
    ⟨.transformed, some ⟨"row_stats", firstPriority, [("key_codec", "long"),
      ("value_input_codec", "long")]⟩,
      KeyRange.full, .allVersions, .summary, .summary, firstPriority + 1⟩
  have hw : v.rowStats = .ok (v.child summarized) := by
    simp only [v, summarized, Registry.builtin_eq]
    rfl
  let u := (v.child summarized).restrict (KeyRange.exact one)
  let total := ([.int 1, .int 2].filterMap Value.number?).foldl Summary.add Summary.empty
  let e : Entry := ⟨one, writeSummary total, 3⟩
  have hfound : u.scan store none .allVersions = .ok ([e].map .ok) := by
    rw [hstore, Registry.builtin_eq]
    rfl
  have hplain : ∀ layer ∈ v.layers, layer.kind ≠ .aggregated := by
    simp [v, View.base, layers]
  obtain ⟨-, w, hrows, hselected⟩ :=
    row_summaries id .asRead _ _ _ rfl [] v rfl hplain (by decide) all hall
  obtain rfl := Except.ok.inj (hw.symm.trans hrows)
  have hselect : List.Forall₂ (Step.Selects id v.schema.keyCodec)
      [.restrict (KeyRange.exact one)] [fun e => (KeyRange.exact one).contains e.key] :=
    .cons (.restrict rfl) .nil
  obtain ⟨-, -, hentries⟩ := hselected _ _ u hselect rfl
  obtain ⟨hdecoded, -, -, hsums, -⟩ := hentries [e] hfound
  obtain ⟨s, hsum, -⟩ := hsums e List.mem_cons_self
  exact ⟨_, e, s, hw, hdecoded, rfl, hsum⟩

end View

end Strata
