/-
**Parts of a map between two keys of one type.**

A part of a map is a restriction of its view to the byte strings between two encoded keys.  What it
shows are the entries of the map whose keys lie between the two as values, however many partitions
they are spread over, and whatever other keys lie in the map; it is empty from the outset when the
two have crossed or met.  The map is in the order of its keys, so the part before the lesser of two
keys, the part between them and the part from the greater on are the whole map, one after the other.

* `Ascending.select_append`, `Ascending.three_pieces` — entries in order are cut at keys;
* `View.shows_base`, `View.shows_restrict` — what a map and a restriction of it show;
* `Container.typed_ranges` — **what the parts of a map show**, after any calls.
-/

import Strata.Proofs.Codec.TypedRange
import Strata.Proofs.Map.WrittenValues

set_option relaxedAutoImplicit false
set_option autoImplicit false

namespace Strata

open Codec

/-! ### Pieces of ascending entries -/

namespace KeyRange

/-- The entries whose keys a range holds. -/
def select (range : KeyRange) (entries : List Entry) : List Entry :=
  entries.filter fun e => range.contains e.key

variable {entries : List Entry} {a b narrow : KeyRange}

theorem select_cons (range : KeyRange) (e : Entry) (entries : List Entry) :
    range.select (e :: entries) =
      if range.contains e.key then e :: range.select entries else range.select entries :=
  List.filter_cons

/-- Selecting twice is selecting what both ranges hold. -/
theorem select_select
    (h : ∀ key, narrow.contains key = true ↔ b.contains key = true ∧ a.contains key = true) :
    b.select (a.select entries) = narrow.select entries := by
  rw [select, select, List.filter_filter, select]
  refine List.filter_congr fun e _ => ?_
  rw [Bool.eq_iff_iff, Bool.and_eq_true, h]

end KeyRange

namespace Ascending

variable {entries : List Entry}

/-- Entries in order are those before a key, followed by those from it on. -/
theorem select_append (h : Ascending entries) (key : Bytes) :
    (KeyRange.halfOpen none (some key)).select entries ++
      (KeyRange.halfOpen (some key) none).select entries = entries := by
  have hbefore : ∀ e : Entry,
      (KeyRange.halfOpen none (some key)).contains e.key = true ↔ e.key < key := by
    simp [KeyRange.contains_halfOpen]
  have hfrom : ∀ e : Entry,
      (KeyRange.halfOpen (some key) none).contains e.key = true ↔ ¬ e.key < key := by
    simp [KeyRange.contains_halfOpen]
  induction entries with
  | nil => rfl
  | cons e entries ih =>
      obtain ⟨hfirst, hrest⟩ := ascending_cons.1 h
      by_cases hlt : e.key < key
      · rw [KeyRange.select_cons, KeyRange.select_cons, if_pos ((hbefore e).2 hlt),
          if_neg (mt (hfrom e).1 (not_not.2 hlt)), List.cons_append, ih hrest]
      · -- no entry behind this one is before the key
        have hall : ∀ x ∈ e :: entries, ¬ x.key < key := by
          rw [List.forall_mem_cons]
          exact ⟨hlt, fun x hx hbelow => hlt ((hfirst x hx).trans_lt hbelow)⟩
        rw [KeyRange.select, KeyRange.select,
          List.filter_eq_nil_iff.2 fun x hx => mt (hbefore x).1 (hall x hx),
          List.filter_eq_self.2 fun x hx => (hfrom x).2 (hall x hx), List.nil_append]

/-- **Entries in order are cut into three pieces** by two keys that have not crossed. -/
theorem three_pieces (h : Ascending entries) {low high : Bytes} (hle : low ≤ high) :
    (KeyRange.halfOpen none (some low)).select entries ++
      (KeyRange.halfOpen (some low) (some high)).select entries ++
        (KeyRange.halfOpen (some high) none).select entries = entries := by
  have hupper : Ascending ((KeyRange.halfOpen (some low) none).select entries) :=
    h.of_sublist (List.filter_sublist.map _)
  -- the piece from the lower key on is cut at the higher one
  have hcut := hupper.select_append high
  have hwithin : (KeyRange.halfOpen none (some high)).select
      ((KeyRange.halfOpen (some low) none).select entries) =
        (KeyRange.halfOpen (some low) (some high)).select entries :=
    KeyRange.select_select fun key => by simp [KeyRange.contains_halfOpen, and_comm]
  have habove : (KeyRange.halfOpen (some high) none).select
      ((KeyRange.halfOpen (some low) none).select entries) =
        (KeyRange.halfOpen (some high) none).select entries :=
    KeyRange.select_select fun key => by simpa [KeyRange.contains_halfOpen] using hle.trans
  rw [hwithin, habove] at hcut
  rw [List.append_assoc, hcut, h.select_append low]

end Ascending

/-! ### What views show -/

namespace View

variable {v : View} {store : Store} {schema : Schema} {range : KeyRange}

/-- Iteration over a view decodes these entries, over newest versions and over all. -/
structure Shows (v : View) (store : Store) (decode : Entry → Except MapError DecodedEntry)
    (newest all : List Entry) : Prop where
  entries : v.entries store = .ok (newest.map decode)
  multiEntries : v.multiEntries store = .ok (all.map decode)

theorem shows_base (h : store.Sound) :
    (View.base schema).Shows store (View.base schema).decodeEntry
      (store.contents.entries KeyRange.full .latest)
      (store.contents.entries KeyRange.full .allVersions) :=
  ⟨entries_base h, multiEntries_base h⟩

theorem decodeEntry_restrict (v : View) (range : KeyRange) :
    (v.restrict range).decodeEntry = v.decodeEntry := by
  unfold restrict
  split <;> rfl

/-- **A restriction of a map shows the entries of its range.** -/
theorem shows_restrict (h : store.Sound) (range : KeyRange) :
    ((View.base schema).restrict range).Shows store (View.base schema).decodeEntry
      (range.select (store.contents.entries KeyRange.full .latest))
      (range.select (store.contents.entries KeyRange.full .allVersions)) := by
  have hscan : ∀ mode, ((View.base schema).restrict range).scan store none mode =
      .ok ((range.select (store.contents.entries KeyRange.full mode)).map .ok) := by
    intro mode
    have hnarrow : store.contents.entries range mode =
        range.select (store.contents.entries KeyRange.full mode) :=
      Store.entries_narrow store.contents (fun _ => rfl) mode
    rw [(Sound.base schema).scan_restrict, scan_base_range h, hnarrow]
  constructor
  · rw [entries_of_scan (hscan _), decodeEntry_restrict, mode_restrict]
    rfl
  · rw [multiEntries_of_scan (hscan _), decodeEntry_restrict]

/-- A restriction of a map is empty from the outset when the bounds have crossed. -/
theorem kind_restrict_base (schema : Schema) (range : KeyRange) :
    ((View.base schema).restrict range).kind = .empty ↔ range.isEmpty = true := by
  have hfull : (View.base schema).top.range.intersect range =
      if range.isEmpty then none else some range := by
    obtain ⟨lower, upper⟩ := range
    cases lower <;> cases upper <;> rfl
  rw [kind_restrict, hfull]
  cases range.isEmpty <;> simp [View.base, View.kind]

section Bounds

variable (hcodec : v.schema.keyCodec = .fixedPoint)

include hcodec

theorem encodeKey_fixedPoint (key : Value) : v.encodeKey key = .ok (FixedPoint.encode key) := by
  rw [encodeKey, hcodec]
  rfl

theorem subMap_fixedPoint (r : TypedRange) :
    v.subMap r.low r.high = .ok (v.restrict r.keys) := by
  rw [subMap, encodeKey_fixedPoint hcodec, encodeKey_fixedPoint hcodec]
  rfl

theorem headMap_fixedPoint (key : Value) : v.headMap key =
    .ok (v.restrict (KeyRange.halfOpen none (some (FixedPoint.encode key)))) := by
  rw [headMap, encodeKey_fixedPoint hcodec]
  rfl

theorem tailMap_fixedPoint (key : Value) : v.tailMap key =
    .ok (v.restrict (KeyRange.halfOpen (some (FixedPoint.encode key)) none)) := by
  rw [tailMap, encodeKey_fixedPoint hcodec]
  rfl

end Bounds

end View

/-! ### Parts of a map -/

namespace Container

/-- **What the parts of a map show, after any calls.**  A map whose keys are encoded in the order of
their values was opened over an empty store that is cut anywhere, and was asked anything.  Each of
its entries was put under the key of a pair that a call was given.  A part of it between two keys of
one type is empty from the outset when these have crossed or met; it shows the entries, newest or
all, that were put under values between the two, and those alone.  For two keys that have not
crossed, the part before the first, the part between them and the part from the second on show the
entries of the map in three consecutive pieces. -/
theorem typed_ranges (digest : Bytes → Bytes) (order : FieldOrder) (layout : StoreLayout)
    (settings : Settings) (calls : List MapCall) (c : Container)
    (hopen : openMap (Store.ofLayout layout (.builtin digest order)) settings
      (.builtin digest order) = .ok c)
    (hcodec : c.schema.keyCodec = .fixedPoint) :
    let given := calls.flatMap MapCall.pairs
    let map := (c.run calls).2
    let newest := map.store.contents.entries KeyRange.full .latest
    let all := map.store.contents.entries KeyRange.full .allVersions
    let decode := map.base.decodeEntry
    map.base.Shows map.store decode newest all ∧
    (∀ e, e ∈ newest ∨ e ∈ all → ∃ pair ∈ given, FixedPoint.encode pair.1 = e.key ∧
      c.schema.valueCodec.encode pair.2 = .ok e.value) ∧
    ∀ bounds : TypedRange, ∃ sub, map.base.subMap bounds.low bounds.high = .ok sub ∧
      (sub.kind = .empty ↔ ¬ bounds.Proper) ∧
      (∃ keep : Bytes → Bool,
        (∀ key : Value, keep (FixedPoint.encode key) = true ↔ bounds.Holds key) ∧
        sub.Shows map.store decode (newest.filter fun e => keep e.key)
          (all.filter fun e => keep e.key)) ∧
      (bounds.InOrder → ∃ head tail,
        map.base.headMap bounds.low = .ok head ∧ map.base.tailMap bounds.high = .ok tail ∧
        ∃ below within above allBelow allWithin allAbove,
          newest = below ++ within ++ above ∧ all = allBelow ++ allWithin ++ allAbove ∧
          head.Shows map.store decode below allBelow ∧
          sub.Shows map.store decode within allWithin ∧
          tail.Shows map.store decode above allAbove) := by
  intro given map newest all decode
  obtain ⟨hready, -, hmap⟩ := ready_openMap hopen
  have hempty : c.store.toMap.All fun _ _ => False := by
    rw [hmap]
    exact fun key v hv => by cases hv
  obtain ⟨hrun, hall⟩ := all_run calls hready hempty fun _ _ hmade => hmade
  have hbase : map.base = View.base c.schema := congrArg View.base hrun.schema
  have hshows : ∀ range, (map.base.restrict range).Shows map.store decode
      (range.select newest) (range.select all) := by
    intro range
    have hdecode : decode = (View.base c.schema).decodeEntry := congrArg View.decodeEntry hbase
    rw [hbase, hdecode]
    exact View.shows_restrict hrun.sound range
  have hkey : map.base.schema.keyCodec = .fixedPoint := by rw [hbase]; exact hcodec
  have hascending : ∀ mode, Ascending (map.store.contents.entries KeyRange.full mode) :=
    Store.ascending_entries hrun.sound.sorted_contents KeyRange.full
  refine ⟨View.shows_base hrun.sound, ?written, fun bounds => ⟨map.base.restrict bounds.keys,
    View.subMap_fixedPoint hkey bounds, ?empty, ?selects, fun horder => ?splits⟩⟩
  case written =>
    intro e he
    obtain ⟨pair, hpair, hput⟩ : ∃ pair ∈ given,
        c.schema.putMutation pair.1 pair.2 = .ok (.put e.key e.value) := by
      rcases he with he | he <;> exact Store.forall_entries_of_all hrun.sound hall _ _ e he
    obtain ⟨hencode, hvalue⟩ := Schema.encodes_of_putMutation hput
    rw [hcodec] at hencode
    exact ⟨pair, hpair, Except.ok.inj hencode, hvalue⟩
  case empty =>
    rw [hbase, View.kind_restrict_base, bounds.isEmpty_keys]
  case selects =>
    exact ⟨bounds.keys.contains, bounds.contains_encode_iff, hshows bounds.keys⟩
  case splits =>
    have hle := bounds.encode_low_le_high_iff.2 horder
    exact ⟨_, _, View.headMap_fixedPoint hkey _, View.tailMap_fixedPoint hkey _, _, _, _, _, _, _,
      ((hascending .latest).three_pieces hle).symm,
      ((hascending .allVersions).three_pieces hle).symm, hshows _, hshows _, hshows _⟩

/-- The part from zero up to one of a map that holds numbers and a text. -/
theorem typed_ranges_numbers :
    let calls : List MapCall := [.put (.int 1) .null, .put (.float 0.5) .null,
      .putWithoutGet (.text "zero") (.int 0)]
    let map := ((emptyMap id .asRead).run calls).2
    openMap (Store.ofLayout ⟨[], Limits.standard, some 1⟩ (.builtin id)) Settings.standard
      (.builtin id) = .ok (emptyMap id .asRead) ∧
    (emptyMap id .asRead).schema.keyCodec = .fixedPoint ∧
    ∃ sub, map.base.subMap (.int 0) (.int 1) = .ok sub ∧ sub.kind ≠ .empty ∧
      ∃ below within above, map.store.contents.entries KeyRange.full .latest =
          below ++ within ++ above ∧
        sub.entries map.store = .ok (within.map map.base.decodeEntry) := by
  intro calls map
  have hopen := openMap_emptyMap id .asRead
  obtain ⟨-, -, hbounds⟩ :=
    typed_ranges id .asRead _ Settings.standard calls (emptyMap id .asRead) hopen rfl
  obtain ⟨sub, hsub, hempty, -, hsplits⟩ := hbounds (.ints 0 1)
  have hproper : (TypedRange.ints 0 1).Proper := show (0 : Int64) < 1 by decide
  have horder : (TypedRange.ints 0 1).InOrder := show (0 : Int64) ≤ 1 by decide
  obtain ⟨_, _, -, -, below, within, above, _, _, _, hcut, -, -, hwithin, -⟩ := hsplits horder
  exact ⟨hopen, rfl, sub, hsub, fun hkind => hempty.1 hkind hproper, below, within, above, hcut,
    hwithin.entries⟩

end Container

end Strata
