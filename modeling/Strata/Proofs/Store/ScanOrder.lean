/-
**Every scan is in order.**

An entry is known by its stamp, its key and its timestamp.  Without operators a scan returns the
stamps of what is stored in order: lesser keys first, and of one key the newer versions first.  No
operator makes up stamps or moves them: what it returns bears some of the stamps that it was given,
in their order.  So the stamps of every scan are a subsequence of those of the scan without
operators, whatever the operators and however they are piled up.  Summaries of rows and aggregates
leave one entry of a key, and operators on top of them add none.

* `Entry.stamp`, `Entry.Before` — stamps, and their order;
* `Thins`, `Registry.thins_builtin` — **no built-in operator makes up stamps**;
* `Lone`, `Registry.lone_builtin` — operators that leave one entry of a key;
* `Store.Sound.stamps_sublist` — the stamps of a scan among those of all entries in range;
* `Store.scan_inOrder` — **scans after any calls**.
-/

import Mathlib.Data.List.Flatten
import Strata.Proofs.Operator.Gather
import Strata.Proofs.Store.PerSpan
import Strata.Proofs.Store.VersionedMap

set_option relaxedAutoImplicit false
set_option autoImplicit false

namespace Strata

/-! ### Stamps -/

namespace Entry

/-- The key and the timestamp of an entry. -/
def stamp (e : Entry) : Bytes × Nat := (e.key, e.timestamp)

/-- The order of a scan: lesser keys first, and of one key the newer version first. -/
def Before (a b : Entry) : Prop := a.key < b.key ∨ a.key = b.key ∧ b.timestamp < a.timestamp

end Entry

variable {entries out : List Entry}

/-- What stands in the order of a scan stands so by its stamps alone. -/
theorem pairwise_before_iff : entries.Pairwise Entry.Before ↔
    (entries.map Entry.stamp).Pairwise fun a b => a.1 < b.1 ∨ a.1 = b.1 ∧ b.2 < a.2 := by
  rw [List.pairwise_map]
  rfl

/-- In the order of a scan the entries of one key stand newest first. -/
theorem pairwise_newest_first (h : entries.Pairwise Entry.Before) (key : Bytes) :
    (entries.filter fun e => e.key == key).Pairwise fun a b => b.timestamp < a.timestamp := by
  refine (h.filter _).imp_of_mem fun {a b} ha hb hab => ?_
  have hsame : a.key = b.key := by
    rw [eq_of_beq (List.mem_filter.1 ha).2, eq_of_beq (List.mem_filter.1 hb).2]
  exact hab.elim (fun hlt => absurd hsame hlt.ne) And.right

/-- The keys of some of the stamps are some of the keys. -/
theorem keys_sublist (h : (out.map Entry.stamp).Sublist (entries.map Entry.stamp)) :
    (out.map (·.key)).Sublist (entries.map (·.key)) := by
  have hkeys := h.map Prod.fst
  rwa [List.map_map, List.map_map] at hkeys

/-- The keys ascend strictly: there is one entry of a key. -/
def StrictlyAscending (entries : List Entry) : Prop := (entries.map (·.key)).Pairwise (· < ·)

/-! ### Operators that make up no stamps -/

/-- What the operator returns bears some of the stamps that it was given, in their order. -/
def Thins (operator : Operator) : Prop :=
  ∀ ⦃entries out⦄, operator entries = .ok out →
    (out.map Entry.stamp).Sublist (entries.map Entry.stamp)

/-- An operator that goes through entries and keeps their stamps. -/
theorem thins_pick {f : Entry → Except OperatorError (Option Entry)}
    (hstamp : ∀ x y, f x = .ok (some y) → y.stamp = x.stamp) : Thins (pick f) := by
  intro entries out hout
  have hsome : ∀ x y, f x = .ok (some y) → (fun x : Entry => some x.stamp) x = some y.stamp := by
    intro x y hxy
    rw [hstamp x y hxy]
  have hsublist := pick_sublist hsome hout
  rwa [List.filterMap_eq_map'] at hsublist

theorem stamp_of_copyKey {order : FieldOrder} {keyCodec outputCodec : Codec} {x y : Entry}
    (h : copyKey order keyCodec outputCodec x = .ok y) : y.stamp = x.stamp := by
  obtain ⟨key, -, h⟩ := bind_eq_ok.1 h
  obtain ⟨value, -, h⟩ := bind_eq_ok.1 h
  rw [← Except.ok.inj h]
  rfl

theorem stamp_of_summarizeRow {codec : Codec} {row : List Entry} {y : Entry}
    (h : summarizeRow codec row = .ok (some y)) : row.head?.map Entry.stamp = some y.stamp := by
  obtain ⟨s, -, h⟩ := bind_eq_ok.1 h
  obtain ⟨newest, hnewest, rfl⟩ := Option.map_eq_some_iff.1 (Except.ok.inj h)
  rw [hnewest]
  rfl

/-- A summary of a row bears the stamp of its first entry. -/
theorem summaries_sublist {codec : Codec}
    (h : pick (summarizeRow codec) (rows entries) = .ok out) :
    (out.map Entry.stamp).Sublist (((rows entries).filterMap List.head?).map Entry.stamp) := by
  have hheads := pick_sublist (fun _ _ => stamp_of_summarizeRow) h
  rwa [← List.map_filterMap] at hheads

theorem thins_gather (value : List Entry → Except OperatorError Bytes) : Thins (gather value) := by
  intro entries out hout
  rcases gather_eq_ok hout with ⟨-, rfl⟩ | ⟨last, bytes, hlast, -, rfl⟩
  · exact List.nil_sublist _
  · obtain ⟨front, rfl⟩ := List.getLast?_eq_some_iff.1 hlast
    rw [List.map_append]
    exact List.sublist_append_right _ _

namespace Registry

variable {digest : Bytes → Bytes} {order : FieldOrder} {setting : Setting} {operator : Operator}

/-- **No built-in operator makes up stamps.** -/
theorem thins_builtin (hbuild : (builtin digest order).build setting = .ok operator) :
    Thins operator := by
  by_cases hid : setting.id ∈ ["count", "checksum", "stats"]
  · obtain ⟨value, rfl, -⟩ := gather_of_build hid rfl hbuild
    exact thins_gather value
  · obtain ⟨r, hfind, hr⟩ := build_eq_ok hbuild
    obtain ⟨hmem, heq⟩ := find?_eq_some hfind
    rw [← heq] at hid
    rw [builtin_eq] at hmem
    simp only [List.mem_cons, List.not_mem_nil, or_false] at hmem
    rcases hmem with rfl | rfl | rfl | rfl | rfl | rfl | rfl
    · simp at hid
    · simp at hid
    · obtain ⟨keyCodec, outputCodec, -, -, rfl⟩ := keyCopy_eq_ok hr
      rw [funext (mapM_eq_pick (copyKey order keyCodec outputCodec))]
      refine thins_pick fun x y hxy => ?_
      obtain ⟨made, hmade, hy⟩ := map_eq_ok.1 hxy
      obtain rfl := Option.some.inj hy
      exact stamp_of_copyKey hmade
    · obtain ⟨f, -, rfl⟩ := patternFilter_eq_ok hr
      rw [funext (run_eq_pick f)]
      refine thins_pick fun x y hxy => ?_
      obtain ⟨accepted, -, hy⟩ := map_eq_ok.1 hxy
      split at hy <;> simp_all
    · obtain ⟨codec, -, rfl⟩ := rowSummary_eq_ok hr
      intro entries out hout
      have hheads := (sublist_flatten_head? (rows entries)).map Entry.stamp
      rw [(rows_spec entries).2] at hheads
      exact (summaries_sublist hout).trans hheads
    · obtain ⟨s, -, rfl⟩ := sampling_eq_ok hr
      intro entries out hout
      rw [← Except.ok.inj hout]
      exact List.filter_sublist.map _
    · simp at hid

end Registry

/-! ### Operators that leave one entry of a key -/

/-- Of entries in order the operator leaves one entry of a key. -/
def Lone (operator : Operator) : Prop :=
  ∀ ⦃entries out⦄, Ascending entries → operator entries = .ok out → StrictlyAscending out

/-- The rows of a stream in order begin with different keys. -/
theorem strictlyAscending_heads (h : Ascending entries) :
    StrictlyAscending ((rows entries).filterMap List.head?) := by
  induction entries with
  | nil => exact .nil
  | cons e rest ih =>
      obtain ⟨hle, hrest⟩ := ascending_cons.1 h
      have ih := ih hrest
      by_cases hne : ∀ y ∈ rest, y.key ≠ e.key
      · rw [rows_cons_of_ne hne]
        refine List.pairwise_cons.2 ⟨fun key hkey => ?_, ih⟩
        -- the rows behind begin with entries that follow, none of which has the key again
        obtain ⟨x, hx, rfl⟩ := List.mem_map.1 hkey
        have hmem : x ∈ rest := by
          have hheads := (sublist_flatten_head? (rows rest)).subset hx
          rwa [(rows_spec rest).2] at hheads
        exact lt_of_le_of_ne (hle x hmem) (Ne.symm (hne x hmem))
      · -- the key comes next again, so the first row grows and begins with the same key
        obtain ⟨x, rest, rfl, hx⟩ := next_of_key_again hle hrest hne
        obtain ⟨row, others, hrows, hcons⟩ := rows_cons_cons hx rest
        obtain ⟨hfirst, hothers⟩ := List.pairwise_cons.1 (hrows ▸ ih)
        rw [hcons]
        refine List.pairwise_cons.2 ⟨fun key hkey => ?_, hothers⟩
        exact hx.symm.trans_lt (hfirst key hkey)

/-- **The rows of a stream in order are what it has of each key**, and the keys ascend strictly. -/
theorem rows_by_key (h : Ascending entries) :
    ∃ keys : List Bytes, keys.Pairwise (· < ·) ∧ (∀ key, key ∈ keys ↔ ∃ e ∈ entries, e.key = key) ∧
      rows entries = keys.map fun key => entries.filter fun e => e.key == key := by
  induction entries with
  | nil => exact ⟨[], .nil, by simp, rfl⟩
  | cons e rest ih =>
      obtain ⟨hle, hrest⟩ := ascending_cons.1 h
      obtain ⟨keys, hkeys, hmem, hrows⟩ := ih hrest
      by_cases hne : ∀ y ∈ rest, y.key ≠ e.key
      · have hbelow : ∀ key ∈ keys, e.key < key := by
          intro key hkey
          obtain ⟨x, hx, rfl⟩ := (hmem key).1 hkey
          exact lt_of_le_of_ne (hle x hx) (Ne.symm (hne x hx))
        refine ⟨e.key :: keys, List.pairwise_cons.2 ⟨hbelow, hkeys⟩, fun key => ?_, ?_⟩
        · rw [List.mem_cons, hmem, List.exists_mem_cons_iff, eq_comm]
        · have hothers : rest.filter (fun x => x.key == e.key) = [] :=
            List.filter_eq_nil_iff.2 fun x hx => by simpa using hne x hx
          rw [rows_cons_of_ne hne, hrows, List.map_cons, List.filter_cons_of_pos (by simp), hothers]
          refine congrArg _ (List.map_congr_left fun key hkey => ?_)
          rw [List.filter_cons_of_neg (by simpa using (hbelow key hkey).ne)]
      · -- the first row begins with the key again, so the first key is that of the entry
        obtain ⟨x, rest, rfl, hx⟩ := next_of_key_again hle hrest hne
        obtain ⟨row, others, hhead, hcons⟩ := rows_cons_cons hx rest
        rw [hhead] at hrows
        obtain ⟨key, keys, rfl, hrow, hothers⟩ := List.map_eq_cons_iff.1 hrows.symm
        have hkey : e.key = key := by
          have hin : x ∈ (x :: rest).filter fun e => e.key == key := hrow ▸ List.mem_cons_self
          rw [← hx]
          simpa using (List.mem_filter.1 hin).2
        refine ⟨key :: keys, hkeys, fun other => ?_, ?_⟩
        · rw [hmem, List.exists_mem_cons_iff _ e, hkey]
          constructor
          · exact Or.inr
          · rintro (rfl | hother)
            · exact ⟨x, List.mem_cons_self, hx.trans hkey⟩
            · exact hother
        · rw [hcons, List.map_cons, List.filter_cons_of_pos (by simpa using hkey), hrow, ← hothers]
          refine congrArg _ (List.map_congr_left fun other hother => ?_)
          have hlt := (List.pairwise_cons.1 hkeys).1 other hother
          exact (List.filter_cons_of_neg (by simpa [hkey] using hlt.ne)).symm

theorem lone_gather (value : List Entry → Except OperatorError Bytes) : Lone (gather value) := by
  intro entries out _ hout
  rcases gather_eq_ok hout with ⟨-, rfl⟩ | ⟨last, bytes, -, -, rfl⟩
  · exact .nil
  · exact List.pairwise_singleton ..

namespace Registry

/-- The names of the operators that leave one entry of a key. -/
def loneIds : List String := ["row_stats", "count", "checksum", "stats"]

/-- **Summaries of rows and aggregates leave one entry of a key.** -/
theorem lone_builtin {digest : Bytes → Bytes} {order : FieldOrder} {setting : Setting}
    {operator : Operator} (hid : setting.id ∈ loneIds)
    (hbuild : (builtin digest order).build setting = .ok operator) :
    Lone operator := by
  rcases List.mem_cons.1 hid with hid | hid
  · obtain ⟨r, hfind, hr⟩ := build_eq_ok hbuild
    rw [builtin_eq, hid] at hfind
    obtain rfl := Option.some.inj hfind
    obtain ⟨codec, -, rfl⟩ := rowSummary_eq_ok hr
    intro entries out hasc hout
    exact (strictlyAscending_heads hasc).sublist (keys_sublist (summaries_sublist hout))
  · obtain ⟨value, rfl, -⟩ := gather_of_build hid rfl hbuild
    exact lone_gather value

end Registry

/-! ### Piles of operators -/

namespace Store

section RunOperators

variable {registry : Registry} {settings : List Setting}

/-- A pile of operators makes up no stamps if none of them does. -/
theorem thins_runOperators
    (h : ∀ s ∈ settings, ∀ operator, registry.build s = .ok operator → Thins operator) :
    Thins (runOperators registry settings) := by
  induction settings with
  | nil =>
      intro entries out hout
      rw [← Except.ok.inj hout]
  | cons setting settings ih =>
      intro entries out hout
      obtain ⟨operator, made, hbuild, hmade, hrest⟩ := runOperators_cons_eq_ok hout
      rw [List.forall_mem_cons] at h
      exact (ih h.2 hrest).trans (h.1 operator hbuild hmade)

/-- A pile leaves one entry of a key if one of its operators does. -/
theorem lone_runOperators
    (hthins : ∀ s ∈ settings, ∀ operator, registry.build s = .ok operator → Thins operator)
    (hlone : ∃ s ∈ settings, ∀ operator, registry.build s = .ok operator → Lone operator) :
    Lone (runOperators registry settings) := by
  induction settings with
  | nil => simp at hlone
  | cons setting settings ih =>
      intro entries out hasc hout
      obtain ⟨operator, made, hbuild, hmade, hrest⟩ := runOperators_cons_eq_ok hout
      rw [List.forall_mem_cons] at hthins
      obtain ⟨s, hs, hone⟩ := hlone
      rcases List.mem_cons.1 hs with rfl | hs
      · -- those on top of it add none
        exact (hone operator hbuild hasc hmade).sublist
          (keys_sublist (thins_runOperators hthins.2 hrest))
      · exact ih hthins.2 ⟨s, hs, hone⟩
          (hasc.of_sublist (keys_sublist (hthins.1 operator hbuild hmade))) hrest

end RunOperators

/-! ### What is stored -/

/-- The versions of a key stand in the order of a scan. -/
theorem pairwise_before_chain {chain : VersionChain} {retention : Option Nat} {clock : Nat}
    (h : chain.Sound retention clock) (key : Bytes) (mode : ScanMode) :
    (chain.entries key mode).Pairwise Entry.Before := by
  cases mode with
  | latest => exact List.pairwise_singleton ..
  | allVersions => exact List.pairwise_map.2 (h.descending.imp fun hlt => Or.inr ⟨rfl, hlt⟩)

/-- Entries of different rows stand in the order of their keys. -/
theorem pairwise_entries {rows : Rows} (hsorted : rows.Sorted) {range : KeyRange} {mode : ScanMode}
    {R : Entry → Entry → Prop} (hkeys : ∀ a b : Entry, a.key < b.key → R a b)
    (hrows : ∀ row ∈ rows, (row.2.entries row.1 mode).Pairwise R) :
    (rows.entries range mode).Pairwise R := by
  rw [Rows.entries, List.pairwise_flatMap]
  refine ⟨fun row hrow => hrows row (List.mem_filter.1 hrow).1, ?_⟩
  refine (hsorted.filter _).imp fun {row other} hlt a ha b hb => hkeys a b ?_
  rwa [key_of_mem_chain ha, key_of_mem_chain hb]

/-- What comes of partitions that lie apart stands in the order of the keys. -/
theorem pairwise_flatMap_apart {partitions : List Partition} {out : Partition → List Entry}
    {R : Entry → Entry → Prop} (happart : partitions.Pairwise Partition.Apart)
    (hspan : ∀ p ∈ partitions, ∀ e ∈ out p, p.span.contains e.key = true)
    (hkeys : ∀ a b : Entry, a.key < b.key → R a b)
    (hout : ∀ p ∈ partitions, (out p).Pairwise R) : (partitions.flatMap out).Pairwise R := by
  refine List.pairwise_flatMap.2 ⟨hout, happart.imp_of_mem ?_⟩
  -- a partition ends before the next begins
  intro p q hp hq ⟨high, hhigh, low, hlow, hle⟩ a ha b hb
  have hbelow := ((KeyRange.contains_halfOpen _ _ _).1 (hspan p hp a ha)).2 high hhigh
  have habove := ((KeyRange.contains_halfOpen _ _ _).1 (hspan q hq b hb)).1 low hlow
  exact hkeys a b (hbelow.trans_le (hle.trans habove))

variable {store : Store} {scanner : Scanner} {found : List Entry}

/-- All entries of a store stand in the order of a scan. -/
theorem Sound.pairwise_before (h : store.Sound) (range : KeyRange) (mode : ScanMode) :
    (store.contents.entries range mode).Pairwise Entry.Before :=
  pairwise_entries h.sorted_contents (fun _ _ => Or.inl)
    fun row hrow => pairwise_before_chain (h.chains row hrow) row.1 mode

/-- There is one newest version of a key. -/
theorem Sound.strictlyAscending_latest (h : store.Sound) (range : KeyRange) :
    StrictlyAscending (store.contents.entries range .latest) :=
  List.pairwise_map.2 (pairwise_entries h.sorted_contents (fun _ _ => id)
    fun _ _ => List.pairwise_singleton ..)

/-- The stamp of every entry is that of a version of its key. -/
theorem exists_version (h : store.Sound) {range : KeyRange} {mode : ScanMode} {e : Entry}
    (he : e ∈ store.contents.entries range mode) :
    range.contains e.key = true ∧ ∃ v ∈ store.toMap.versions e.key, v.timestamp = e.timestamp := by
  refine ⟨(key_of_mem_entries he).1, ?_⟩
  obtain ⟨keys, -, hentries⟩ := entries_toMap h range mode
  rw [hentries] at he
  obtain ⟨key, -, he⟩ := List.mem_flatMap.1 he
  obtain ⟨v, hv, rfl⟩ := List.mem_map.1 he
  cases mode with
  | latest => exact ⟨v, List.mem_of_mem_take hv, rfl⟩
  | allVersions => exact ⟨v, hv, rfl⟩

/-! ### Scans -/

/-- What a scan makes of a partition that it meets, its operators make of the entries in range. -/
theorem runs_of_made (h : store.scan scanner = found.map .ok)
    (hrange : scanner.range.isEmpty = false) {p : Partition} (hp : p ∈ store.partitions)
    (hmeets : scanner.range.overlapsSpan p.low p.high = true) :
    runOperators store.registry scanner.settings (p.rows.entries scanner.range scanner.mode) =
      .ok (store.made scanner p) := by
  obtain ⟨-, hmade⟩ := eq_made_of_scan_eq_ok h hrange
  obtain ⟨index, hindex⟩ := List.mem_iff_getElem?.1 hp
  exact (streamPartition_eq_ok_iff.1 (hmade index p hindex hmeets)).2

/-- Between crossed bounds a scan returns nothing. -/
theorem eq_nil_of_scan_eq_ok (h : store.scan scanner = found.map .ok)
    (hrange : scanner.range.isEmpty = true) : found = [] := by
  simp only [scan, openScan, Stream.drain, hrange] at h
  exact List.map_eq_nil_iff.1 h.symm

/-- **The stamps of a scan are some of those of all entries in range**, in their order. -/
theorem Sound.stamps_sublist (hthins : Thins (runOperators store.registry scanner.settings))
    (h : store.scan scanner = found.map .ok) :
    (found.map Entry.stamp).Sublist
      ((store.contents.entries scanner.range scanner.mode).map Entry.stamp) := by
  cases hrange : scanner.range.isEmpty with
  | true =>
      rw [eq_nil_of_scan_eq_ok h hrange]
      exact List.nil_sublist _
  | false =>
      have hpart : ∀ p ∈ store.partitions, ((store.made scanner p).map Entry.stamp).Sublist
          ((p.rows.entries scanner.range scanner.mode).map Entry.stamp) := by
        intro p hp
        by_cases hmeets : scanner.range.overlapsSpan p.low p.high = true
        · exact hthins (runs_of_made h hrange hp hmeets)
        · rw [made_of_not_overlaps (by simpa using hmeets)]
          exact List.nil_sublist _
      rw [(eq_made_of_scan_eq_ok h hrange).1, entries_contents, List.map_flatMap, List.map_flatMap]
      exact List.Sublist.flatMap_right _ hpart

/-- What a scan returns stands in its order. -/
theorem Sound.pairwise_before_scan (hsound : store.Sound)
    (hthins : Thins (runOperators store.registry scanner.settings))
    (h : store.scan scanner = found.map .ok) : found.Pairwise Entry.Before := by
  have hall := hsound.pairwise_before scanner.range scanner.mode
  exact pairwise_before_iff.2 ((pairwise_before_iff.1 hall).sublist (stamps_sublist hthins h))

/-- **A scan returns one entry of a key** when what its operators leave of a partition is so. -/
theorem Sound.strictlyAscending_scan (hsound : store.Sound)
    (hkeys : KeepsKeys (runOperators store.registry scanner.settings))
    (hlone : Lone (runOperators store.registry scanner.settings))
    (h : store.scan scanner = found.map .ok) : StrictlyAscending found := by
  cases hrange : scanner.range.isEmpty with
  | true =>
      rw [eq_nil_of_scan_eq_ok h hrange]
      exact .nil
  | false =>
      rw [(eq_made_of_scan_eq_ok h hrange).1, StrictlyAscending, List.pairwise_map]
      refine pairwise_flatMap_apart hsound.tiles.pairwise_apart (hsound.contains_of_made hkeys)
        (fun _ _ => id) fun p hp => List.pairwise_map.1 ?_
      by_cases hmeets : scanner.range.overlapsSpan p.low p.high = true
      · exact hlone (ascending_entries (hsound.placed.sorted p hp) _ _)
          (runs_of_made h hrange hp hmeets)
      · rw [made_of_not_overlaps (by simpa using hmeets)]
        exact .nil

/-- **Whatever operators run, a scan is in order.**  A store is asked anything, and a scan of any
range, in either mode and with any pile of built-in operators, does not fail.  Its keys ascend, and
the timestamps of the entries of one key descend strictly.  The keys ascend strictly if the scan is
for the newest versions, or if some operator summarizes rows or gathers partitions.  Every entry has
a key of the range and the timestamp of a version that is stored under it. -/
theorem scan_inOrder (digest : Bytes → Bytes) (order : FieldOrder) (layout : StoreLayout)
    (calls : List StoreCall) (scanner : Scanner) (found : List Entry) :
    let store := (ofLayout layout (.builtin digest order)).run calls
    let map := (VersionedMap.empty layout.retention).run layout.limits calls
    store.scan scanner = found.map .ok →
    found.Pairwise (fun a b => a.key < b.key ∨ a.key = b.key ∧ b.timestamp < a.timestamp) ∧
    (scanner.mode = .latest ∨ (∃ s ∈ scanner.settings, s.id ∈ Registry.loneIds) →
      found.Pairwise fun a b => a.key < b.key) ∧
    ∀ e ∈ found, scanner.range.contains e.key = true ∧
      ∃ v ∈ map.versions e.key, v.timestamp = e.timestamp := by
  intro store map h
  have hsound : store.Sound := sound_run layout _ calls
  have hmap : store.toMap = map := toMap_run_ofLayout layout _ calls
  have hregistry : store.registry = .builtin digest order := registry_run _ calls
  have hthins : ∀ s ∈ scanner.settings, ∀ operator, store.registry.build s = .ok operator →
      Thins operator := by
    rw [hregistry]
    exact fun s _ operator => Registry.thins_builtin
  have hkeys : KeepsKeys (runOperators store.registry scanner.settings) := by
    rw [hregistry]
    exact keepsKeys_runOperators fun s _ operator => Registry.keepsKeys_builtin
  have hstamps := Sound.stamps_sublist (thins_runOperators hthins) h
  refine ⟨?_, ?_, fun e he => ?_⟩
  · have hall := hsound.pairwise_before scanner.range scanner.mode
    exact pairwise_before_iff.2 ((pairwise_before_iff.1 hall).sublist hstamps)
  · rintro (hlatest | ⟨s, hs, hid⟩)
    · have hall := hsound.strictlyAscending_latest scanner.range
      rw [hlatest] at hstamps
      exact List.pairwise_map.1 (hall.sublist (keys_sublist hstamps))
    · refine List.pairwise_map.1 (hsound.strictlyAscending_scan hkeys ?_ h)
      refine lone_runOperators hthins ⟨s, hs, ?_⟩
      rw [hregistry]
      exact fun operator => Registry.lone_builtin hid
  · obtain ⟨x, hx, hstamp⟩ := List.mem_map.1 (hstamps.subset (List.mem_map_of_mem he))
    obtain ⟨hkey, htimestamp⟩ := Prod.mk.inj hstamp
    have hstored := exists_version hsound hx
    rw [hmap] at hstored
    rwa [hkey, htimestamp] at hstored

/-- Three versions of two keys in two partitions: their keys are copied, each key is summarized, and
each partition is counted. -/
theorem scan_inOrder_counted :
    let one := Codec.LongWord.write 1
    let two := Codec.LongWord.write 2
    let calls : List StoreCall := [.writeBatch [.put two one, .put one two, .put one one]]
    let scanner : Scanner := ⟨.full, .allVersions,
      [⟨"key_to_key", 1, [("key_codec", "long")]⟩,
        ⟨"row_stats", 2, [("value_input_codec", "long")]⟩, ⟨"count", 3, []⟩]⟩
    let store := (ofLayout ⟨[two], Limits.standard, none⟩ (.builtin id)).run calls
    let found : List Entry := [⟨one, writeCount 1, 3⟩, ⟨two, writeCount 1, 1⟩]
    store.scan scanner = found.map .ok ∧ found.Pairwise fun a b => a.key < b.key := by
  intro one two calls scanner store found
  have hstore : store =
      ⟨[⟨none, some two, [(one, ⟨⟨one, 3⟩, [⟨two, 2⟩]⟩)], (Registry.builtin id).ids⟩,
        ⟨some two, none, [(two, ⟨⟨one, 1⟩, []⟩)], (Registry.builtin id).ids⟩],
        .builtin id, Limits.standard, none, 3⟩ := rfl
  have hscan : store.scan scanner = found.map .ok := by
    rw [hstore, Registry.builtin_eq]
    rfl
  exact ⟨hscan,
    (scan_inOrder id .asRead ⟨[two], Limits.standard, none⟩ calls scanner found hscan).2.1
    (Or.inr ⟨_, List.mem_cons_of_mem _ (List.mem_cons_self ..), by decide⟩)⟩

end Store

end Strata
