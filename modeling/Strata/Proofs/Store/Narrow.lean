/-
**Narrowing the range of a scan.**

A scan with operators copies the entries in range of a partition and runs its operators on the copy.
When all operators look at one key at a time, the keys that a narrower range leaves out may as well
be left out of what the operators return.  So narrowing the range of a scan in which nothing fails
selects from what it returns, and nothing fails in the narrower scan, which visits no partition that
the wider one does not visit.

* `Registry.KeyLocal` — a setting that builds only such operators;
* `Store.runOperators_filter`, `Store.keepsKeys_runOperators` — piles of operators;
* `Store.Sound.scan_narrow` — **narrowing selects**;
* `Store.Sound.contains_of_scan` — a scan keeps to its range.
-/

import Strata.Proofs.Operator.KeyLocal
import Strata.Proofs.Store.Scan

set_option relaxedAutoImplicit false
set_option autoImplicit false

namespace Strata

/-- Whatever the registry builds from the setting looks at one key at a time. -/
def Registry.KeyLocal (registry : Registry) (setting : Setting) : Prop :=
  ∀ operator, registry.build setting = .ok operator → Strata.KeyLocal operator

namespace Store

/-! ### Piles of operators -/

section RunOperators

variable {registry : Registry} {settings : List Setting} {setting : Setting}
  {entries out : List Entry}

theorem runOperators_cons_eq_ok
    (h : runOperators registry (setting :: settings) entries = .ok out) :
    ∃ operator made, registry.build setting = .ok operator ∧ operator entries = .ok made ∧
      runOperators registry settings made = .ok out := by
  rw [runOperators] at h
  split at h
  · cases h
  · next operator hbuild =>
    split at h
    · cases h
    · next made hmade => exact ⟨operator, made, hbuild, hmade, h⟩

/-- Operators on top of a pile run on what the pile makes. -/
theorem runOperators_append (below above : List Setting) (entries : List Entry) :
    runOperators registry (below ++ above) entries =
      (runOperators registry below entries).bind (runOperators registry above) := by
  induction below generalizing entries with
  | nil => rfl
  | cons setting below ih =>
      rw [List.cons_append, runOperators, runOperators]
      cases registry.build setting with
      | error e => rfl
      | ok operator =>
          cases hmade : operator entries with
          | error e => simp only [hmade]; rfl
          | ok made => simp only [hmade, ih]

/-- **Leaving out keys before a pile of operators runs is leaving them out behind it.** -/
theorem runOperators_filter (hlocal : ∀ s ∈ settings, registry.KeyLocal s)
    (hasc : Ascending entries) (h : runOperators registry settings entries = .ok out)
    (keep : Bytes → Bool) :
    runOperators registry settings (entries.filter fun e => keep e.key) =
      .ok (out.filter fun e => keep e.key) := by
  induction settings generalizing entries with
  | nil =>
      obtain rfl : entries = out := Except.ok.inj h
      rfl
  | cons setting settings ih =>
      obtain ⟨operator, made, hbuild, hmade, hrest⟩ := runOperators_cons_eq_ok h
      rw [List.forall_mem_cons] at hlocal
      have hone := hlocal.1 operator hbuild
      rw [runOperators, hbuild]
      simp only [hone.filter hasc hmade keep]
      exact ih hlocal.2 (hone.ascending hasc hmade) hrest

/-- A pile of operators makes up no keys if none of them does. -/
theorem keepsKeys_runOperators
    (h : ∀ s ∈ settings, ∀ operator, registry.build s = .ok operator → KeepsKeys operator) :
    KeepsKeys (runOperators registry settings) := by
  induction settings with
  | nil =>
      intro entries out hasc hout
      obtain rfl : entries = out := Except.ok.inj hout
      exact ⟨hasc, fun e he => ⟨e, he, rfl⟩⟩
  | cons setting settings ih =>
      intro entries out hasc hout
      obtain ⟨operator, made, hbuild, hmade, hrest⟩ := runOperators_cons_eq_ok hout
      rw [List.forall_mem_cons] at h
      obtain ⟨hascMade, hkeysMade⟩ := h.1 operator hbuild hasc hmade
      obtain ⟨hascOut, hkeysOut⟩ := ih h.2 hascMade hrest
      refine ⟨hascOut, fun e he => ?_⟩
      obtain ⟨x, hx, hxe⟩ := hkeysOut e he
      obtain ⟨y, hy, hyx⟩ := hkeysMade x hx
      exact ⟨y, hy, hyx.trans hxe⟩

/-- A pile of operators that look at one key at a time makes up no keys. -/
theorem keepsKeys_of_local (hlocal : ∀ s ∈ settings, registry.KeyLocal s) :
    KeepsKeys (runOperators registry settings) :=
  keepsKeys_runOperators fun s hs operator hbuild => (hlocal s hs operator hbuild).keepsKeys

end RunOperators

/-! ### Entries in range -/

theorem key_of_mem_chain {chain : VersionChain} {key : Bytes} {mode : ScanMode} {e : Entry}
    (he : e ∈ chain.entries key mode) : e.key = key := by
  cases mode with
  | latest => simp_all [VersionChain.entries]
  | allVersions =>
      obtain ⟨v, -, rfl⟩ := List.mem_map.1 he
      rfl

theorem key_of_mem_entries {rows : Rows} {range : KeyRange} {mode : ScanMode} {e : Entry}
    (he : e ∈ rows.entries range mode) :
    range.contains e.key = true ∧ ∃ row ∈ rows, row.1 = e.key := by
  obtain ⟨row, hrow, he⟩ := List.mem_flatMap.1 he
  rw [key_of_mem_chain he]
  exact ⟨(List.mem_filter.1 hrow).2, row, (List.mem_filter.1 hrow).1, rfl⟩

/-- Entries keep to a span to which the rows keep. -/
theorem contains_of_mem_entries {rows : Rows} {range span : KeyRange} {mode : ScanMode} {e : Entry}
    (hspan : ∀ row ∈ rows, span.contains row.1 = true) (he : e ∈ rows.entries range mode) :
    span.contains e.key = true := by
  obtain ⟨-, row, hrow, hkey⟩ := key_of_mem_entries he
  rw [← hkey]
  exact hspan row hrow

theorem filter_entries_chain (chain : VersionChain) (key : Bytes) (mode : ScanMode)
    (keep : Bytes → Bool) :
    (chain.entries key mode).filter (fun e => keep e.key) =
      if keep key then chain.entries key mode else [] := by
  cases hkeep : keep key <;> cases mode <;>
    simp [VersionChain.entries, List.filter_map, Function.comp_def, hkeep]

/-- The entries of a narrower range are those of the wider one whose keys it holds. -/
theorem entries_narrow (rows : Rows) {range narrow : KeyRange} {keep : Bytes → Bool}
    (hnarrow : ∀ key, narrow.contains key = (range.contains key && keep key)) (mode : ScanMode) :
    rows.entries narrow mode = (rows.entries range mode).filter fun e => keep e.key := by
  induction rows with
  | nil => rfl
  | cons row rows ih =>
      simp only [Rows.entries, List.filter_cons, hnarrow] at ih ⊢
      cases hrange : range.contains row.1 with
      | false => simpa using ih
      | true =>
          simp only [Bool.true_and, if_true, List.flatMap_cons, List.filter_append,
            filter_entries_chain, ← ih]
          split <;> simp

theorem ascending_entries {rows : Rows} (h : rows.Sorted) (range : KeyRange) (mode : ScanMode) :
    Ascending (rows.entries range mode) := by
  induction rows with
  | nil => exact ascending_nil
  | cons row rows ih =>
      obtain ⟨hrow, hrows⟩ := List.pairwise_cons.1 h
      have hrest := ih hrows
      rw [Rows.entries, List.filter_cons]
      split
      · rw [List.flatMap_cons, Ascending, List.map_append, List.pairwise_append]
        have hkey : ∀ key ∈ (row.2.entries row.1 mode).map (·.key), key = row.1 := by
          intro key hmem
          obtain ⟨e, he, rfl⟩ := List.mem_map.1 hmem
          exact key_of_mem_chain he
        refine ⟨?_, hrest, fun a ha b hb => ?_⟩
        · exact List.pairwise_of_forall_mem_list fun a ha b hb => by rw [hkey a ha, hkey b hb]
        · obtain ⟨e, he, rfl⟩ := List.mem_map.1 hb
          obtain ⟨-, other, hother, heq⟩ := key_of_mem_entries he
          rw [hkey a ha, ← heq]
          exact (hrow other hother).le
      · exact hrest

/-! ### Scans -/

variable {store : Store} {scanner : Scanner} {found : List Entry}

/-- **A scan keeps to its range** when its operators make up no keys. -/
theorem Sound.contains_of_scan (hsound : store.Sound)
    (hkeys : KeepsKeys (runOperators store.registry scanner.settings))
    (h : store.scan scanner = found.map .ok) (hrange : scanner.range.isEmpty = false)
    {e : Entry} (he : e ∈ found) : scanner.range.contains e.key = true := by
  obtain ⟨rfl, hmade⟩ := eq_made_of_scan_eq_ok h hrange
  obtain ⟨p, hp, he⟩ := List.mem_flatMap.1 he
  have hoverlaps : scanner.range.overlapsSpan p.low p.high = true := by
    by_contra hno
    rw [made_of_not_overlaps (by simpa using hno)] at he
    cases he
  obtain ⟨index, hindex⟩ := List.mem_iff_getElem?.1 hp
  have hrun := (streamPartition_eq_ok_iff.1 (hmade index p hindex hoverlaps)).2
  have hasc := ascending_entries (hsound.placed.sorted p hp) scanner.range scanner.mode
  obtain ⟨x, hx, heq⟩ := (hkeys hasc hrun).2 e he
  rw [← heq]
  exact (key_of_mem_entries hx).1

/-- **Narrowing the range of a scan in which nothing fails selects from what it returns.** -/
theorem Sound.scan_narrow (hsound : store.Sound)
    (hlocal : ∀ s ∈ scanner.settings, store.registry.KeyLocal s)
    (h : store.scan scanner = found.map .ok) (hrange : scanner.range.isEmpty = false)
    {range narrow : KeyRange} (hnarrow : scanner.range.intersect range = some narrow) :
    store.scan (scanner.setRange narrow) =
      (found.filter fun e => range.contains e.key).map .ok := by
  obtain ⟨rfl, hmade⟩ := eq_made_of_scan_eq_ok h hrange
  have hkeys := KeyRange.contains_of_intersect hnarrow
  let keep (e : Entry) : Bool := range.contains e.key
  have hfilter : ∀ (index : Nat) (p : Partition), store.partitions[index]? = some p →
      scanner.range.overlapsSpan p.low p.high = true →
      runOperators store.registry scanner.settings (p.rows.entries narrow scanner.mode) =
        .ok ((store.made scanner p).filter keep) := by
    intro index p hp hoverlaps
    have hrun := (streamPartition_eq_ok_iff.1 (hmade index p hp hoverlaps)).2
    have hasc := ascending_entries (hsound.placed.sorted p (List.mem_of_getElem? hp))
      scanner.range scanner.mode
    rw [entries_narrow p.rows hkeys]
    exact runOperators_filter hlocal hasc hrun range.contains
  have hselect : (store.partitions.flatMap (store.made scanner)).filter keep =
      store.partitions.flatMap fun p => (store.made scanner p).filter keep := List.filter_flatMap ..
  rw [hselect]
  refine scan_eq_of_ok ?_ ?_
  · intro index p hp _ hoverlaps
    have hwider := KeyRange.overlapsSpan_of_intersect hnarrow hoverlaps
    have hruns := (streamPartition_eq_ok_iff.1 (hmade index p hp hwider)).1
    exact streamPartition_eq_ok_iff.2 ⟨hruns, hfilter index p hp hwider⟩
  · intro p hp hno
    -- a partition that only the wider scan met holds no key of the narrow range
    by_cases hwider : scanner.range.overlapsSpan p.low p.high = true
    · obtain ⟨index, hindex⟩ := List.mem_iff_getElem?.1 hp
      have hnone := hfilter index p hindex hwider
      have hempty : p.rows.entries narrow scanner.mode = [] :=
        entries_of_not_meets (hsound.placed.inSpan p hp) hno
      rw [hempty] at hnone
      refine List.eq_nil_iff_forall_not_mem.2 ?_
      intro e he
      obtain ⟨x, hx, -⟩ := (keepsKeys_of_local hlocal ascending_nil hnone).2 e he
      cases hx
    · rw [made_of_not_overlaps (by simpa using hwider)]
      rfl

end Store

end Strata
