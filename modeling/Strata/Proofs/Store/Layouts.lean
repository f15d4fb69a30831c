/-
**What a scan returns does not depend on the partitions.**

A scan runs its operators on every partition for itself.  When they split at keys, it returns what
they make of all entries in range at once: the partitions hold different keys, and one that the scan
skips holds none of the range.  Stores that were asked the same hold the same versions of every key,
however they are cut, so such scans of them return the same.  Each scan reads the keys for itself:
where it copies a key with objects in it, their fields come in an order of that scan.

* `VersionedMap.Lists.unique`, `Store.entries_eq_of_toMap` — equal maps have equal entries;
* `Store.Sound.scan_eq_ok_iff` — **a scan is one run of its operators**;
* `Store.scan_layouts` — **two layouts**.
-/

import Mathlib.Data.List.Sort
import Strata.Proofs.Operator.FieldOrder
import Strata.Proofs.Operator.SideBySide
import Strata.Proofs.Store.PerSpan
import Strata.Proofs.Store.VersionedMap

set_option relaxedAutoImplicit false
set_option autoImplicit false

namespace Strata

/-! ### Equal maps -/

/-- There is one way to list the keys of a range in order. -/
theorem VersionedMap.Lists.unique {map : VersionedMap} {range : KeyRange} {keys others : List Bytes}
    (hkeys : map.Lists range keys) (hothers : map.Lists range others) : keys = others := by
  refine hkeys.ascending.eq_of_mem_iff hothers.ascending fun key => ?_
  rw [hkeys.mem_iff, hothers.mem_iff]

namespace Store

variable {store other : Store} {scanner : Scanner} {found : List Entry}

/-- Stores that are the same map hold the same entries, in the same order. -/
theorem entries_eq_of_toMap (h : store.Sound) (hother : other.Sound)
    (hmap : store.toMap = other.toMap) (range : KeyRange) (mode : ScanMode) :
    store.contents.entries range mode = other.contents.entries range mode := by
  obtain ⟨keys, hkeys, hentries⟩ := entries_toMap h range mode
  obtain ⟨others, hothers, hentries'⟩ := entries_toMap hother range mode
  rw [hmap] at hkeys
  rw [hentries, hentries', hkeys.unique hothers, hmap]

/-! ### One run of the operators -/

/-- Partitions that lie apart hold different keys. -/
theorem Sound.keysApart (h : store.Sound) (range : KeyRange) (mode : ScanMode) :
    store.partitions.Pairwise fun p q =>
      KeysApart (p.rows.entries range mode) (q.rows.entries range mode) := by
  refine h.tiles.pairwise_apart.imp_of_mem ?_
  intro p q hp hq happart x hx y hy heq
  obtain ⟨-, row, hrow, hkey⟩ := key_of_mem_entries hx
  obtain ⟨-, row', hrow', hkey'⟩ := key_of_mem_entries hy
  have hin := h.placed.inSpan p hp row hrow
  have hin' := h.placed.inSpan q hq row' hrow'
  rw [hkey] at hin
  rw [hkey', heq, happart.contains_left hin] at hin'
  cases hin'

/-- What a scan makes of a partition is what its operators make of the entries in range, for a
partition that it skips has none. -/
theorem Sound.made_eq (h : store.Sound)
    (hnil : runOperators store.registry scanner.settings [] = .ok []) {p : Partition}
    (hp : p ∈ store.partitions) :
    store.made scanner p = (runOperators store.registry scanner.settings
      (p.rows.entries scanner.range scanner.mode)).toOption.getD [] := by
  by_cases hmeets : scanner.range.overlapsSpan p.low p.high = true
  · rw [made, if_pos hmeets]
  · have hno : scanner.range.overlapsSpan p.low p.high = false := by simpa using hmeets
    rw [made_of_not_overlaps hno, entries_of_not_meets (h.placed.inSpan p hp) (Or.inr hno), hnil]
    rfl

/-- **A scan whose operators split at keys is one run of them** on all entries in range, wherever
the store is cut. -/
theorem Sound.scan_eq_ok_iff (h : store.Sound)
    (hsplits : SplitsAtKeys (runOperators store.registry scanner.settings))
    (hrange : scanner.range.isEmpty = false) :
    store.scan scanner = found.map .ok ↔
      (∀ p ∈ store.partitions, scanner.range.overlapsSpan p.low p.high = true →
        ∀ s ∈ scanner.settings, p.runs s.id = true) ∧
      runOperators store.registry scanner.settings
        (store.contents.entries scanner.range scanner.mode) = .ok found := by
  have hasc := ascending_entries h.sorted_contents scanner.range scanner.mode
  rw [entries_contents] at hasc ⊢
  rw [hsplits.flatMap hasc (h.keysApart scanner.range scanner.mode)]
  have hmade : (store.partitions.flatMap fun p => (runOperators store.registry scanner.settings
      (p.rows.entries scanner.range scanner.mode)).toOption.getD []) =
      store.partitions.flatMap (store.made scanner) :=
    List.flatMap_congr fun p hp => (h.made_eq hsplits.nil hp).symm
  rw [hmade]
  constructor
  · intro hscan
    obtain ⟨rfl, hvisit⟩ := eq_made_of_scan_eq_ok hscan hrange
    refine ⟨fun p hp hmeets => ?_, fun p hp => ?_, rfl⟩
    · obtain ⟨index, hindex⟩ := List.mem_iff_getElem?.1 hp
      exact (streamPartition_eq_ok_iff.1 (hvisit index p hindex hmeets)).1
    · by_cases hmeets : scanner.range.overlapsSpan p.low p.high = true
      · obtain ⟨index, hindex⟩ := List.mem_iff_getElem?.1 hp
        exact ⟨_, (streamPartition_eq_ok_iff.1 (hvisit index p hindex hmeets)).2⟩
      · have hno : scanner.range.overlapsSpan p.low p.high = false := by simpa using hmeets
        rw [entries_of_not_meets (h.placed.inSpan p hp) (Or.inr hno)]
        exact ⟨[], hsplits.nil⟩
  · rintro ⟨hruns, hall, rfl⟩
    refine scan_eq_made hrange fun index p hp hmeets => ?_
    have hmem := List.mem_of_getElem? hp
    obtain ⟨out, hout⟩ := hall p hmem
    exact ⟨out, streamPartition_eq_ok_iff.2 ⟨hruns p hmem hmeets, hout⟩⟩

/-! ### Two layouts -/

/-- Items that are no errors are entries. -/
theorem forall_isOk_iff {items : List ScanItem} :
    (∀ item ∈ items, item.isOk = true) ↔ ∃ found : List Entry, items = found.map .ok := by
  constructor
  · intro h
    induction items with
    | nil => exact ⟨[], rfl⟩
    | cons item items ih =>
        obtain ⟨hitem, hitems⟩ := List.forall_mem_cons.1 h
        obtain ⟨found, rfl⟩ := ih hitems
        cases item with
        | error e => cases hitem
        | ok e => exact ⟨e :: found, rfl⟩
  · rintro ⟨found, rfl⟩ item hitem
    obtain ⟨e, -, rfl⟩ := List.mem_map.1 hitem
    rfl

/-- Scans in which nothing fails return the same of two stores that are the same map, up to the
orders in which the fields of keys come. -/
theorem Sound.exists_scans {digest : Bytes → Bytes} {order again : FieldOrder} (h : store.Sound)
    (hother : other.Sound) (hmap : store.toMap = other.toMap)
    (hregistry : store.registry = .builtin digest order)
    (hregistry' : other.registry = .builtin digest again)
    (hsplits : ∀ order, SplitsAtKeys (runOperators (.builtin digest order) scanner.settings))
    (hok : ∀ item ∈ store.scan scanner, item.isOk = true)
    (hok' : ∀ item ∈ other.scan scanner, item.isOk = true) :
    ∃ found found' : List Entry, store.scan scanner = found.map .ok ∧
      other.scan scanner = found'.map .ok ∧ Reread order again found found' := by
  cases hrange : scanner.range.isEmpty with
  | true =>
      -- between crossed bounds neither scan visits a partition
      have hnone : ∀ store : Store, store.scan scanner = [] := by
        intro store
        simp only [scan, openScan, Stream.drain, hrange]
        rfl
      exact ⟨[], [], hnone store, hnone other, .nil, fun _ => rfl⟩
  | false =>
      obtain ⟨found, hfound⟩ := forall_isOk_iff.1 hok
      obtain ⟨found', hfound'⟩ := forall_isOk_iff.1 hok'
      have hrun := ((h.scan_eq_ok_iff (hregistry ▸ hsplits order) hrange).1 hfound).2
      have hrun' := ((hother.scan_eq_ok_iff (hregistry' ▸ hsplits again) hrange).1 hfound').2
      have hentries : store.contents.entries scanner.range scanner.mode =
          other.contents.entries scanner.range scanner.mode :=
        entries_eq_of_toMap h hother hmap scanner.range scanner.mode
      rw [hregistry, hentries] at hrun
      rw [hregistry'] at hrun'
      refine ⟨found, found', hfound, hfound', ?_, ?_⟩
      · obtain ⟨out, hout, hsame⟩ :=
          alike_runOperators digest order again _ (Entry.SameUpToOrder.refl_all _) hrun
        obtain rfl : out = found' := Except.ok.inj (hout.symm.trans hrun')
        exact hsame
      · rintro rfl
        exact Except.ok.inj (hrun'.symm.trans hrun)

end Store

end Strata
