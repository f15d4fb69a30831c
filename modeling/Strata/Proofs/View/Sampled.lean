/-
**A sample of a view is the view, filtered.**

The descriptor of a sample travels to the store as texts, among options that say how keys and values
are read.  Whenever the operator is built, once when the view is derived and again on every
partition of every scan, the fractions and the timestamps are read back from their texts, and they
are the ones that were written.  So the partitions agree on what is in the sample, and together they
keep what one filter of the whole would keep.  The scan of the sample is another one than that of
its parent, so copies of keys with objects in them may be written in other orders of their fields;
what is in the sample does not hang on it.

* `Sample.Accepted` — the samples whose descriptor can be made;
* `Sample.Spelled`, `Sample.Spelled.inputOptions` — options that tell of a sample, to which those of
  the view add nothing;
* `Sample.Spelled.ofOptions` — **the descriptor is read back**;
* `View.exists_sample` — a sample is always derived;
* `View.scan_sample` — **its entries**.
-/

import Strata.Proofs.Number.ReadText
import Strata.Proofs.Operator.SampleSplit
import Strata.Proofs.View.AggregateReads
import Strata.Proofs.View.FieldOrder
import Strata.Proofs.View.WellTyped

set_option relaxedAutoImplicit false
set_option autoImplicit false

namespace Strata

open Number

/-! ### Reading options back -/

namespace Options

variable {options : Options} {name : String}

theorem required_of_get? {value : String} (h : options.get? name = some value)
    (operator : String) : options.required operator name = .ok value := by
  rw [required, h]

theorem readFloat_of_get? {x : Float} (hx : IsFinite x) (h : options.get? name = some (text x)) :
    options.readFloat name = .ok (some x) := by
  simp only [Options.readFloat, readWith, h, trim_text hx, readFloat_text hx]
  rfl

/-- A word is read back, and so is that there is none. -/
theorem readWord_of_get? {n : Option Nat} (hn : ∀ k ∈ n, k ≤ greatestWord)
    (h : options.get? name = n.map Nat.repr) : options.readWord name = .ok n := by
  cases n with
  | none => simp only [readWord, readWith, h, Option.map_none]
  | some k =>
      simp only [readWord, readWith, h, Option.map_some, trim_repr, readNatural_repr (hn k rfl)]
      rfl

end Options

/-! ### Descriptors as options -/

namespace Sample

variable {s : Sample} {options : Options}

/-- A sample whose descriptor can be made: it lies between fractions, and its timestamps are words
of 64 bits. -/
structure Accepted (s : Sample) : Prop where
  fromFraction : IsFraction s.fromFraction
  toFraction : IsFraction s.toFraction
  fromTimestamp : ∀ n ∈ s.fromTimestamp, n ≤ greatestWord
  toTimestamp : ∀ n ∈ s.toTimestamp, n ≤ greatestWord

theorem isFraction_of_checkFraction {option : String} {f : Float}
    (h : checkFraction option f = .ok ()) : IsFraction f := by
  rw [checkFraction] at h
  split at h
  · next hf => exact isFraction_iff.2 hf
  · cases h

/-- A descriptor that was made, limited to timestamps, is accepted. -/
theorem Accepted.of_make {seed : String} {f g : Float} {made : Sample}
    {fromTimestamp toTimestamp : Option Nat} (hmake : make seed f g = .ok made)
    (hfrom : ∀ n ∈ fromTimestamp, n ≤ greatestWord) (hto : ∀ n ∈ toTimestamp, n ≤ greatestWord) :
    (made.during fromTimestamp toTimestamp).Accepted := by
  obtain ⟨⟨⟩, hf, hmake⟩ := bind_eq_ok.1 hmake
  obtain ⟨⟨⟩, hg, hmake⟩ := bind_eq_ok.1 hmake
  obtain rfl := Except.ok.inj hmake
  exact ⟨isFraction_of_checkFraction hf, isFraction_of_checkFraction hg, hfrom, hto⟩

/-- The names of the options of a sample. -/
def optionNames : List String :=
  [seedOption, fromFractionOption, toFractionOption, fromTimestampOption, toTimestampOption]

/-- Options that spell a sample out, whatever else they say. -/
structure Spelled (s : Sample) (options : Options) : Prop where
  seed : options.get? seedOption = some s.seed
  fromFraction : options.get? fromFractionOption = some (text s.fromFraction)
  toFraction : options.get? toFractionOption = some (text s.toFraction)
  fromTimestamp : options.get? fromTimestampOption = s.fromTimestamp.map Nat.repr
  toTimestamp : options.get? toTimestampOption = s.toTimestamp.map Nat.repr

theorem spelled_toOptions (s : Sample) : s.Spelled s.toOptions := by
  have hnil (name : String) : Options.get? [] name = none := rfl
  obtain ⟨seed, f, g, fromTimestamp, toTimestamp⟩ := s
  cases fromTimestamp <;> cases toTimestamp <;> constructor <;>
    simp +decide [toOptions, Options.get?_cons, hnil]

/-- Options of other names do not change the sample. -/
theorem Spelled.setDefault (h : s.Spelled options) {name : String} (hname : name ∉ optionNames)
    (value : String) : s.Spelled (options.setDefault name value) := by
  have hkept : ∀ other ∈ optionNames,
      (options.setDefault name value).get? other = options.get? other := by
    intro other hother
    refine Options.get?_setDefault_of_ne ?_
    rintro rfl
    exact hname hother
  simp only [optionNames, List.forall_mem_cons, List.not_mem_nil, false_imp_iff, implies_true,
    and_true] at hkept
  obtain ⟨hseed, hfrom, hto, hfromTs, htoTs⟩ := hkept
  exact ⟨hseed.trans h.seed, hfrom.trans h.fromFraction, hto.trans h.toFraction,
    hfromTs.trans h.fromTimestamp, htoTs.trans h.toTimestamp⟩

theorem Spelled.inputOptions (h : s.Spelled options) (v : View) :
    s.Spelled (v.inputOptions options) := by
  have hkey : s.Spelled (options.setDefault Options.keyCodec v.schema.keyCodec.id) :=
    h.setDefault (by decide) _
  rw [View.inputOptions]
  cases v.top.format with
  | coded codec => exact hkey.setDefault (by decide) _
  | summary => exact hkey

/-- **The descriptor is read back** from options that spell it out. -/
theorem Spelled.ofOptions (h : s.Spelled options) (hs : s.Accepted) :
    Sample.ofOptions options = .ok s := by
  have hfrom := Options.readFloat_of_get? hs.fromFraction.finite h.fromFraction
  have hto := Options.readFloat_of_get? hs.toFraction.finite h.toFraction
  have hfromTs := Options.readWord_of_get? hs.fromTimestamp h.fromTimestamp
  have htoTs := Options.readWord_of_get? hs.toTimestamp h.toTimestamp
  have hmake := make_eq_ok s.seed hs.fromFraction hs.toFraction
  simp only [Sample.ofOptions, Options.required_of_get? h.seed,
    Options.required_of_get? h.fromFraction, Options.required_of_get? h.toFraction, hfrom, hto,
    hfromTs, htoTs, bind, Except.bind, Option.getD_some, hmake]
  rfl

/-- The entry is in the sample. -/
def holds (s : Sample) (digest : Bytes → Bytes) (e : Entry) : Bool :=
  (SampleFilter.ofSample s).admits digest e.key e.timestamp

theorem Spelled.sampling (h : s.Spelled options) (hs : s.Accepted) (digest : Bytes → Bytes) :
    sampling digest options = .ok fun entries => .ok (entries.filter (s.holds digest)) := by
  rw [Strata.sampling, h.ofOptions hs]
  rfl

end Sample

/-! ### Deriving a sample -/

namespace View

variable {v : View} {s : Sample} {digest : Bytes → Bytes} {order : FieldOrder} {store : Store}
  {mode : ScanMode}

theorem descriptor_sampling (digest : Bytes → Bytes) (order : FieldOrder) :
    (Registry.builtin digest order).descriptor Sample.operatorId =
      .ok ⟨"sampling", .filter, [], none⟩ := by
  rw [Registry.builtin_eq]
  rfl

theorem build_sampling {options : Options} (h : s.Spelled options) (hs : s.Accepted)
    (priority : Nat) :
    (Registry.builtin digest order).build ⟨Sample.operatorId, priority, options⟩ =
      .ok fun entries => .ok (entries.filter (s.holds digest)) := by
  have hbuild : (Registry.builtin digest order).build ⟨Sample.operatorId, priority, options⟩ =
      sampling digest options := by
    rw [Registry.builtin_eq]
    rfl
  rw [hbuild, h.sampling hs]

/-- A sample is always derived, as a layer whose options spell it out. -/
theorem exists_sample (hregistry : v.schema.registry = .builtin digest order) (hs : s.Accepted) :
    ∃ d options, v.schema.registry.descriptor Sample.operatorId = .ok d ∧ s.Spelled options ∧
      v.sample s = .ok (v.child (v.operatorLayer d
        ⟨Sample.operatorId, v.top.nextPriority, options⟩ v.top.format v.top.mode)) := by
  have hspelled := (Sample.spelled_toOptions s).inputOptions v
  have hd : v.schema.registry.descriptor Sample.operatorId =
      .ok ⟨"sampling", .filter, [], none⟩ := by
    rw [hregistry, descriptor_sampling]
  have hbuild : v.schema.registry.build _ = _ :=
    hregistry ▸ build_sampling hspelled hs v.top.nextPriority
  exact ⟨_, v.inputOptions s.toOptions, hd, hspelled, stack_of_build hd rfl rfl hbuild v.top.mode⟩

/-! ### Scanning it -/

/-- **A scan of a sample** returns what is in the sample of what a scan of its parent returns; it
fails only where a partition lacks the operator. -/
theorem Sound.exists_scan_sample (h : v.Sound)
    (hregistry : v.schema.registry = .builtin digest order) (hs : s.Accepted) :
    ∃ w, v.sample s = .ok w ∧ ∀ (again : FieldOrder) (store : Store),
      store.registry = .builtin digest again → ∀ (mode : ScanMode) (shown : List Entry),
      v.scan store none mode = .ok (shown.map .ok) →
      ∀ found : List Entry, w.scan store none mode = .ok (found.map .ok) ↔
        v.RunsOn store Sample.operatorId ∧ found = shown.filter (s.holds digest) := by
  obtain ⟨d, options, hd, hspelled, hsample⟩ := exists_sample hregistry hs
  refine ⟨_, hsample, ?_⟩
  intro again store hstore mode shown hshown found
  have hbuild : (Registry.builtin digest order).build _ = _ :=
    build_sampling hspelled hs v.top.nextPriority
  have hw := h.operator hd options v.top.format v.top.mode
  have hview : v.schema.registry.build ⟨Sample.operatorId, v.top.nextPriority, options⟩ = _ :=
    hregistry ▸ hbuild
  rcases operatorLayer_cases v d v.top.format v.top.mode hview with ⟨hempty, hkind, -⟩ | htop
  · -- nothing is scanned, neither below nor above
    obtain rfl := h.eq_nil_of_scan hempty hshown
    rw [hw.scan_of_empty hkind]
    constructor
    · intro hfound
      exact ⟨fun hkind => absurd hempty hkind,
        List.map_eq_nil_iff.1 (Except.ok.inj hfound).symm⟩
    · rintro ⟨-, rfl⟩
      rfl
  · rw [h.scan_eq htop.below, scan_eq_ok_iff] at hshown
    rw [hw.scan_eq htop.above, scan_eq_ok_iff, htop.scanner]
    simp only [RunsOn, ne_eq, htop.below, not_false_eq_true, true_imp_iff]
    have hbuild' : store.registry.build _ = _ :=
      hstore ▸ build_sampling hspelled hs v.top.nextPriority
    exact Store.scan_stack_filter h.searchable hbuild' hshown

/-- **A sample is its parent, filtered.**  For a map and a store of the operators that are always
known, any view and any descriptor whose fractions are accepted: the descriptor is read back from
its options, and the sample is derived.  Where the scan of the view does not fail, that of the
sample does not either, unless a partition in its range lacks the operator, and returns, in order,
the entries of the view that the filter of the descriptor admits.  The scan of the sample takes the
fields of the keys in an order of its own: in the same order these are the very same entries, and in
any order the same but for copies of keys that hold an object of two fields. -/
theorem scan_sample (digest : Bytes → Bytes) (order : FieldOrder) (store : Store) (schema : Schema)
    (hstore : store.registry = .builtin digest order)
    (hschema : schema.registry = .builtin digest order) (steps : List Step) (v : View)
    (hview : (View.base schema).derived steps = .ok v) (seed : String)
    (fromFraction toFraction : Float) (made : Sample)
    (hmake : Sample.make seed fromFraction toFraction = .ok made)
    (fromTimestamp toTimestamp : Option Nat) (hfrom : ∀ n ∈ fromTimestamp, n ≤ greatestWord)
    (hto : ∀ n ∈ toTimestamp, n ≤ greatestWord) :
    let s := made.during fromTimestamp toTimestamp
    Sample.ofOptions s.toOptions = .ok s ∧
    ∃ w, v.sample s = .ok w ∧ ∀ (mode : ScanMode) (shown : List Entry),
      v.scan store none mode = .ok (shown.map .ok) → ∀ again : FieldOrder,
      let reread := store.inOrder digest again
      ∃ shown' : List Entry, Reread order again shown shown' ∧
        v.scan reread none mode = .ok (shown'.map .ok) ∧
        ∀ found : List Entry, w.scan reread none mode = .ok (found.map .ok) ↔
          v.RunsOn store Sample.operatorId ∧ found = shown'.filter fun e =>
            (SampleFilter.ofSample s).admits digest e.key e.timestamp := by
  intro s
  have hs : s.Accepted := Sample.Accepted.of_make hmake hfrom hto
  have hregistry : v.schema.registry = .builtin digest order := (schema_derived hview) ▸ hschema
  have h : v.Sound := (Sound.base schema).derived hview
  obtain ⟨w, hw, hscan⟩ := h.exists_scan_sample hregistry hs
  refine ⟨(Sample.spelled_toOptions s).ofOptions hs, w, hw, ?_⟩
  intro mode shown hshown again reread
  obtain ⟨shown', hshown', hagain⟩ := h.exists_scan_inOrder hstore again hshown
  exact ⟨shown', hagain, hshown', hscan again reread rfl mode shown' hshown'⟩

/-- A sample under a seed with blanks, from the negative zero to a half, has one of two keys. -/
theorem scan_sample_negative_zero :
    let one := Codec.LongWord.write 1
    let two := Codec.LongWord.write 2
    let store := (Store.ofLayout ⟨[two], Limits.standard, none⟩ (.builtin Sha256.digest)).run
      [.writeBatch [.put one one, .put two two]]
    let schema : Schema := ⟨.long, .long, Settings.standard, .builtin Sha256.digest⟩
    let s : Sample :=
      ⟨" north ", -Float.ofNat 0, Float.ofScientific 5 true 1, some 1, some greatestWord⟩
    Sample.ofOptions s.toOptions = .ok s ∧ ∃ w, (View.base schema).sample s = .ok w ∧
      w.scan store none .latest = .ok ([⟨two, two, 2⟩].map .ok) := by
  intro one two store schema s
  have hmake : Sample.make " north " s.fromFraction s.toFraction =
      .ok ⟨" north ", s.fromFraction, s.toFraction, none, none⟩ :=
    make_eq_ok " north " (isFraction_iff.2 (by decide)) (isFraction_iff.2 (by decide))
  obtain ⟨hread, w, hw, hscan⟩ := scan_sample Sha256.digest .asRead store schema rfl rfl []
    (View.base schema) rfl " north " _ _ _ hmake (some 1) (some greatestWord)
    (by simp [greatestWord]) (by simp)
  refine ⟨hread, w, hw, ?_⟩
  have hshown : (View.base schema).scan store none .latest =
      .ok ([⟨one, one, 1⟩, ⟨two, two, 2⟩].map .ok) := rfl
  obtain ⟨shown', hagain, -, hfound⟩ := hscan .latest _ hshown .asRead
  obtain rfl := hagain.ofSameOrder rfl
  refine (hfound _).2 ⟨fun _ => ?_, by decide +kernel⟩
  have hstore : store.partitions =
      [⟨none, some two, [(one, ⟨⟨one, 1⟩, []⟩)], (Registry.builtin Sha256.digest).ids⟩,
        ⟨some two, none, [(two, ⟨⟨two, 2⟩, []⟩)], (Registry.builtin Sha256.digest).ids⟩] := rfl
  intro p hp _
  rw [hstore, Registry.ids_builtin] at hp
  simp only [List.mem_cons, List.not_mem_nil, or_false] at hp
  rcases hp with rfl | rfl <;> rfl

/-- Where the operator is not installed a sample cannot be scanned, although its parent can. -/
theorem scan_sample_uninstalled :
    let one := Codec.LongWord.write 1
    let store := (Store.ofLayout ⟨[], Limits.standard, none⟩ (.builtin Sha256.digest)).run
      [.writeBatch [.put one one], .uninstall 0 Sample.operatorId]
    let v := View.base ⟨.long, .long, Settings.standard, .builtin Sha256.digest⟩
    v.scan store none .latest = .ok ([⟨one, one, 1⟩].map .ok) ∧
      ∃ w, v.sample Sample.whole = .ok w ∧
        ∀ found : List Entry, w.scan store none .latest ≠ .ok (found.map .ok) := by
  intro one store v
  have hshown : v.scan store none .latest = .ok ([⟨one, one, 1⟩].map .ok) := rfl
  have hwhole : Sample.whole.Accepted :=
    ⟨isFraction_iff.2 (by decide), isFraction_iff.2 (by decide), by simp [Sample.whole],
      by simp [Sample.whole]⟩
  have hregistry : v.schema.registry = .builtin Sha256.digest := rfl
  have hstore : store.registry = .builtin Sha256.digest := rfl
  obtain ⟨w, hw, hscan⟩ := (Sound.base _).exists_scan_sample hregistry hwhole
  refine ⟨hshown, w, hw, fun found hfound => ?_⟩
  have hruns := ((hscan .asRead store hstore .latest _ hshown found).1 hfound).1 (by decide)
  have hpartitions : store.partitions =
      [⟨none, none, [(one, ⟨⟨one, 1⟩, []⟩)],
        (Registry.builtin Sha256.digest).ids.filter fun id => id != Sample.operatorId⟩] := rfl
  rw [hpartitions, Registry.ids_builtin] at hruns
  cases hruns _ (List.mem_singleton_self _) rfl

end View

end Strata
