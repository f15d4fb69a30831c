/-
**What aggregates leave, partition by partition.**

Of the entries of a partition an aggregate leaves one, which has the key and the timestamp of the
last of them and a value that stands for all: their number, the sums of the hash codes of their keys
and values, or the summary of the numbers among their values.  Of a partition that shows nothing
nothing is left.  So there are as many partials as partitions that show something, and their keys
ascend, for those of one partition lie before those of the next.

* `partsOf`, `Store.Sound.flatten_partsOf` — the entries of every partition that shows some;
* `StandsFor` — the values that the three aggregates make;
* `Registry.standsFor_of_build` — **which they do make**;
* `Partial`, `perSpan_gather_iff` — **one partial for every part**;
* `Tiles.ascending_partials` — their keys;
* `Aggregation.foldItems_count` — adding up counts.
-/

import Strata.Proofs.Operator.Gather
import Strata.Proofs.Store.PerSpan
import Strata.Proofs.View.Readable
import Strata.View.Aggregate

set_option relaxedAutoImplicit false
set_option autoImplicit false

namespace Strata

/-! ### Parts -/

/-- The entries whose keys lie in a span. -/
def partOf (shown : List Entry) (span : Option Bytes × Option Bytes) : List Entry :=
  shown.filter fun e => (KeyRange.halfOpen span.1 span.2).contains e.key

/-- The entries of every span in which there are any. -/
def partsOf (shown : List Entry) (bounds : List (Option Bytes × Option Bytes)) :
    List (List Entry) :=
  (bounds.map (partOf shown)).filter fun part => !part.isEmpty

section Parts

variable {shown : List Entry} {span : Option Bytes × Option Bytes}
  {bounds : List (Option Bytes × Option Bytes)}

theorem partsOf_cons_of_nil (h : partOf shown span = []) :
    partsOf shown (span :: bounds) = partsOf shown bounds := by
  simp [partsOf, h]

theorem partsOf_cons_of_ne (h : partOf shown span ≠ []) :
    partsOf shown (span :: bounds) = partOf shown span :: partsOf shown bounds := by
  simp [partsOf, h]

theorem ne_nil_of_mem_partsOf {part : List Entry} (h : part ∈ partsOf shown bounds) :
    part ≠ [] := by
  simpa using (List.mem_filter.1 h).2

/-- **A scan is put together from its parts.** -/
theorem Store.Sound.flatten_partsOf {store : Store} {scanner : Scanner} (h : store.Sound)
    (hrange : scanner.range.isEmpty = false)
    (hkeys : KeepsKeys (Store.runOperators store.registry scanner.settings))
    (hshown : store.scan scanner = shown.map .ok) :
    (partsOf shown store.bounds).flatten = shown := by
  obtain ⟨rfl, -⟩ := eq_made_of_scan_eq_ok hshown hrange
  have hparts : ∀ p ∈ store.partitions,
      partOf (store.partitions.flatMap (store.made scanner)) (p.low, p.high) =
        store.made scanner p :=
    fun p hp => filter_flatMap_span h.tiles.pairwise_apart (h.contains_of_made hkeys) hp
  rw [partsOf, List.flatten_filter_not_isEmpty, Store.bounds, List.map_map, List.flatMap]
  exact congrArg List.flatten (List.map_congr_left hparts)

end Parts

/-! ### Values -/

/-- The bytes stand for entries in the way of one of the aggregates, keys and values being read by
codecs. -/
def StandsFor (id : String) (keyCodec valueCodec : Codec) (part : List Entry) (bytes : Bytes) :
    Prop :=
  (id = "count" ∧ bytes = writeCount part.length) ∨
    (id = "checksum" ∧ ∃ pairs : List (Value × Value),
      List.Forall₂ (fun e pair => keyCodec.decode e.key = .ok pair.1 ∧
        valueCodec.decode e.value = .ok pair.2) part pairs ∧
      bytes = Codec.LongWord.write (Checksum.ofPairs pairs).packed.toInt64) ∨
    (id = "stats" ∧ ∃ values : List Value,
      List.Forall₂ (fun e v => valueCodec.decode e.value = .ok v) part values ∧
      bytes = writeSummary ((values.filterMap Value.number?).foldl Summary.add Summary.empty))

/-- A fold whose steps add what stands for an element. -/
theorem foldlM_eq_ok_iff {α β γ ε : Type} {f : β → α → Except ε β} {R : α → γ → Prop}
    {add : β → γ → β} (h : ∀ b x c, f b x = .ok c ↔ ∃ y, R x y ∧ c = add b y) {b c : β}
    {xs : List α} :
    xs.foldlM f b = .ok c ↔ ∃ ys, List.Forall₂ R xs ys ∧ c = ys.foldl add b := by
  induction xs generalizing b with
  | nil =>
      rw [List.foldlM_nil]
      constructor
      · intro hc
        exact ⟨[], .nil, (Except.ok.inj hc).symm⟩
      · rintro ⟨ys, hys, rfl⟩
        cases hys
        rfl
  | cons x xs ih =>
      rw [List.foldlM_cons]
      constructor
      · intro hc
        obtain ⟨next, hnext, hc⟩ := bind_eq_ok.1 hc
        obtain ⟨y, hy, rfl⟩ := (h b x next).1 hnext
        obtain ⟨ys, hys, rfl⟩ := ih.1 hc
        exact ⟨y :: ys, .cons hy hys, rfl⟩
      · rintro ⟨ys, hys, rfl⟩
        cases hys with
        | @cons _ y _ ys hy hys =>
            exact bind_eq_ok.2 ⟨add b y, (h b x _).2 ⟨y, hy, rfl⟩, ih.2 ⟨ys, hys, rfl⟩⟩

section Values

variable {keyCodec valueCodec : Codec} {part : List Entry}

theorem addHashes_eq_ok {c total : Checksum} {e : Entry} :
    addHashes keyCodec valueCodec c e = .ok total ↔ ∃ pair : Value × Value,
      (keyCodec.decode e.key = .ok pair.1 ∧ valueCodec.decode e.value = .ok pair.2) ∧
        total = c.add pair.1 pair.2 := by
  constructor
  · intro h
    obtain ⟨key, hkey, h⟩ := bind_eq_ok.1 h
    obtain ⟨value, hvalue, h⟩ := bind_eq_ok.1 h
    exact ⟨(key, value), ⟨OperatorError.ofCodec_eq_ok.1 hkey, OperatorError.ofCodec_eq_ok.1 hvalue⟩,
      (Except.ok.inj h).symm⟩
  · rintro ⟨pair, ⟨hkey, hvalue⟩, rfl⟩
    exact bind_eq_ok.2 ⟨pair.1, OperatorError.ofCodec_eq_ok.2 hkey,
      bind_eq_ok.2 ⟨pair.2, OperatorError.ofCodec_eq_ok.2 hvalue, rfl⟩⟩

theorem addNumber_eq_ok {s total : Summary Float} {e : Entry} :
    addNumber valueCodec s e = .ok total ↔
      ∃ v, valueCodec.decode e.value = .ok v ∧ total = v.number?.elim s s.add := by
  constructor
  · intro h
    obtain ⟨v, hv, h⟩ := bind_eq_ok.1 h
    exact ⟨v, OperatorError.ofCodec_eq_ok.1 hv, (Except.ok.inj h).symm⟩
  · rintro ⟨v, hv, rfl⟩
    exact bind_eq_ok.2 ⟨v, OperatorError.ofCodec_eq_ok.2 hv, rfl⟩

/-- Only numbers are added to a summary. -/
theorem foldl_number (values : List Value) (s : Summary Float) :
    values.foldl (fun s v => v.number?.elim s s.add) s =
      (values.filterMap Value.number?).foldl Summary.add s := by
  induction values generalizing s with
  | nil => rfl
  | cons v values ih =>
      rw [List.foldl_cons, List.filterMap_cons, ih]
      cases v.number? <;> rfl

/-- Hash codes are added up over what is read. -/
theorem foldlM_addHashes_iff {total : Checksum} :
    part.foldlM (addHashes keyCodec valueCodec) Checksum.empty = .ok total ↔
      ∃ pairs : List (Value × Value),
        List.Forall₂ (fun e pair => keyCodec.decode e.key = .ok pair.1 ∧
          valueCodec.decode e.value = .ok pair.2) part pairs ∧
        total = Checksum.ofPairs pairs := by
  refine foldlM_eq_ok_iff ?_
  intro c e next
  exact addHashes_eq_ok

/-- Numbers are summarized over what is read. -/
theorem summarize_iff {total : Summary Float} :
    summarize valueCodec part = .ok total ↔
      ∃ values : List Value,
        List.Forall₂ (fun e v => valueCodec.decode e.value = .ok v) part values ∧
        total = (values.filterMap Value.number?).foldl Summary.add Summary.empty := by
  simp only [← foldl_number]
  refine foldlM_eq_ok_iff ?_
  intro s e next
  exact addNumber_eq_ok

/-- The checksum of a part. -/
theorem hashes_eq_ok {bytes : Bytes} :
    ((part.foldlM (addHashes keyCodec valueCodec) Checksum.empty).map fun c =>
        Codec.LongWord.write c.packed.toInt64) = .ok bytes ↔
      StandsFor "checksum" keyCodec valueCodec part bytes := by
  simp only [map_eq_ok, foldlM_addHashes_iff, StandsFor]
  constructor
  · rintro ⟨c, ⟨pairs, hpairs, rfl⟩, rfl⟩
    exact Or.inr (Or.inl ⟨trivial, pairs, hpairs, rfl⟩)
  · simp only [String.reduceEq, false_and, or_false, false_or, true_and]
    rintro ⟨pairs, hpairs, rfl⟩
    exact ⟨_, ⟨pairs, hpairs, rfl⟩, rfl⟩

/-- The summary of a part. -/
theorem summary_eq_ok {bytes : Bytes} :
    (summarize valueCodec part).map writeSummary = .ok bytes ↔
      StandsFor "stats" keyCodec valueCodec part bytes := by
  simp only [map_eq_ok, summarize_iff, StandsFor]
  constructor
  · rintro ⟨s, ⟨values, hvalues, rfl⟩, rfl⟩
    exact Or.inr (Or.inr ⟨trivial, values, hvalues, rfl⟩)
  · simp only [String.reduceEq, false_and, false_or, true_and]
    rintro ⟨values, hvalues, rfl⟩
    exact ⟨_, ⟨values, hvalues, rfl⟩, rfl⟩

end Values

/-- **What a built-in aggregate makes stands for the entries.**  If it reads keys or values it does
so by the codecs that its options name. -/
theorem Registry.standsFor_of_build {digest : Bytes → Bytes} {order : FieldOrder}
    {setting : Setting} {operator : Operator} (hid : setting.id ∈ ["count", "checksum", "stats"])
    (hbuild : (Registry.builtin digest order).build setting = .ok operator) (unread : Codec) :
    ∃ keyCodec valueCodec value, operator = gather value ∧
      (if setting.id = "checksum" then setting.options.codec Options.keyCodec = .ok keyCodec
        else keyCodec = unread) ∧
      (setting.id ≠ "count" → setting.options.codec Options.valueInputCodec = .ok valueCodec) ∧
      ∀ part bytes, value part = .ok bytes ↔
        StandsFor setting.id keyCodec valueCodec part bytes := by
  obtain ⟨r, hr, hbuild⟩ := build_eq_ok hbuild
  rw [builtin_eq] at hr
  simp only [List.mem_cons, List.not_mem_nil, or_false] at hid
  rcases hid with hid | hid | hid <;> rw [hid] at hr ⊢ <;> obtain rfl := Option.some.inj hr
  · refine ⟨unread, unread, _, (Except.ok.inj hbuild).symm, by simp, by simp, ?_⟩
    intro part bytes
    simp [StandsFor, eq_comm]
  · obtain ⟨keyCodec, hkey, hbuild⟩ := bind_eq_ok.1 hbuild
    obtain ⟨valueCodec, hvalue, hbuild⟩ := bind_eq_ok.1 hbuild
    refine ⟨keyCodec, valueCodec, _, (Except.ok.inj hbuild).symm, by simpa using hkey,
      fun _ => hvalue, ?_⟩
    intro part bytes
    exact hashes_eq_ok
  · obtain ⟨valueCodec, hvalue, hbuild⟩ := bind_eq_ok.1 hbuild
    refine ⟨unread, valueCodec, _, (Except.ok.inj hbuild).symm, by simp, fun _ => hvalue, ?_⟩
    intro part bytes
    exact summary_eq_ok

/-! ### Partials -/

/-- The entry that an aggregate leaves of others: it has the key and the timestamp of the last of
them, and its value stands for all. -/
structure Partial (id : String) (keyCodec valueCodec : Codec) (part : List Entry) (left : Entry) :
    Prop where
  last : ∃ last, part.getLast? = some last ∧ left.key = last.key ∧ left.timestamp = last.timestamp
  value : StandsFor id keyCodec valueCodec part left.value

section Partials

variable {id : String} {keyCodec valueCodec : Codec}
  {value : List Entry → Except OperatorError Bytes} {part shown found : List Entry}
  {bounds : List (Option Bytes × Option Bytes)}

/-- Of some entries one partial is left. -/
theorem gather_eq_ok_iff (hvalue : ∀ part bytes, value part = .ok bytes ↔
      StandsFor id keyCodec valueCodec part bytes) (hpart : part ≠ []) :
    gather value part = .ok found ↔
      ∃ left, Partial id keyCodec valueCodec part left ∧ found = [left] := by
  constructor
  · intro h
    rcases gather_eq_ok h with ⟨hnil, -⟩ | ⟨last, bytes, hlast, hbytes, rfl⟩
    · exact absurd hnil hpart
    · exact ⟨{ last with value := bytes }, ⟨⟨last, hlast, rfl, rfl⟩, (hvalue part bytes).1 hbytes⟩,
        rfl⟩
  · rintro ⟨left, ⟨⟨last, hlast, hkey, htimestamp⟩, hstands⟩, rfl⟩
    obtain ⟨key, bytes, timestamp⟩ := left
    obtain rfl : key = last.key := hkey
    obtain rfl : timestamp = last.timestamp := htimestamp
    rw [gather, hlast]
    dsimp only
    rw [(hvalue part bytes).2 hstands]
    rfl

/-- **Span by span, one partial is left of every part**, in their order. -/
theorem perSpan_gather_iff (hvalue : ∀ part bytes, value part = .ok bytes ↔
      StandsFor id keyCodec valueCodec part bytes) :
    perSpan (gather value) shown bounds = .ok found ↔
      List.Forall₂ (Partial id keyCodec valueCodec) (partsOf shown bounds) found := by
  induction bounds generalizing found with
  | nil =>
      constructor
      · intro h
        obtain rfl : [] = found := Except.ok.inj h
        exact .nil
      · intro h
        cases h
        rfl
  | cons span bounds ih =>
      have hcons : perSpan (gather value) shown (span :: bounds) =
          (gather value (partOf shown span)).bind fun left =>
            (perSpan (gather value) shown bounds).bind fun rest => .ok (left ++ rest) := rfl
      rw [hcons]
      by_cases hpart : partOf shown span = []
      · -- nothing is left of nothing
        rw [partsOf_cons_of_nil hpart, hpart, gather_nil, ← ih]
        show (perSpan (gather value) shown bounds).bind _ = _ ↔ _
        cases perSpan (gather value) shown bounds <;> exact Iff.rfl
      · rw [partsOf_cons_of_ne hpart]
        constructor
        · intro h
          obtain ⟨first, hfirst, h⟩ := bind_eq_ok.1 h
          obtain ⟨rest, hrest, h⟩ := bind_eq_ok.1 h
          obtain ⟨left, hleft, rfl⟩ := (gather_eq_ok_iff hvalue hpart).1 hfirst
          obtain rfl : left :: rest = found := Except.ok.inj h
          exact .cons hleft (ih.1 hrest)
        · intro h
          cases h with
          | @cons _ left _ rest hleft hrest =>
              exact bind_eq_ok.2 ⟨[left], (gather_eq_ok_iff hvalue hpart).2 ⟨left, hleft, rfl⟩,
                bind_eq_ok.2 ⟨rest, ih.2 hrest, rfl⟩⟩

/-- Entries can always be counted. -/
theorem exists_partials_count {parts : List (List Entry)} (h : ∀ part ∈ parts, part ≠ []) :
    ∃ found, List.Forall₂ (Partial "count" keyCodec valueCodec) parts found := by
  induction parts with
  | nil => exact ⟨[], .nil⟩
  | cons part parts ih =>
      rw [List.forall_mem_cons] at h
      obtain ⟨found, hfound⟩ := ih h.2
      let last := part.getLast h.1
      exact ⟨{ last with value := writeCount part.length } :: found,
        .cons ⟨⟨last, List.getLast?_eq_some_getLast h.1, rfl, rfl⟩, Or.inl ⟨rfl, rfl⟩⟩ hfound⟩

/-- The key of a partial lies in the span of its part. -/
theorem Partial.contains {span : Option Bytes × Option Bytes} {left : Entry}
    (h : Partial id keyCodec valueCodec (partOf shown span) left) :
    (KeyRange.halfOpen span.1 span.2).contains left.key = true := by
  obtain ⟨last, hlast, hkey, -⟩ := h.last
  rw [hkey]
  exact (List.mem_filter.1 (List.mem_of_getLast? hlast)).2

/-- **The keys of partials ascend**, for every span ends where the next begins. -/
theorem Tiles.ascending_partials {low : Option Bytes} (h : Tiles low bounds)
    (hfound : List.Forall₂ (Partial id keyCodec valueCodec) (partsOf shown bounds) found) :
    (found.map (·.key)).Pairwise (· < ·) ∧ ∀ e ∈ found, ∀ l ∈ low, l ≤ e.key := by
  induction h generalizing found with
  | last low =>
      by_cases hpart : partOf shown (low, none) = []
      · rw [partsOf_cons_of_nil hpart] at hfound
        cases hfound
        simp
      · rw [partsOf_cons_of_ne hpart] at hfound
        cases hfound with
        | @cons _ left _ rest hleft hrest =>
            cases hrest
            have hlow := ((KeyRange.contains_halfOpen _ _ _).1 hleft.contains).1
            simpa using hlow
  | @step low split rest hlow hrest ih =>
      by_cases hpart : partOf shown (low, some split) = []
      · rw [partsOf_cons_of_nil hpart] at hfound
        obtain ⟨hascending, hge⟩ := ih hfound
        exact ⟨hascending, fun e he l hl => (hlow l hl).le.trans (hge e he split rfl)⟩
      · rw [partsOf_cons_of_ne hpart] at hfound
        cases hfound with
        | @cons _ left _ others hleft hothers =>
            obtain ⟨hascending, hge⟩ := ih hothers
            obtain ⟨hlowest, hlt⟩ := (KeyRange.contains_halfOpen _ _ _).1 hleft.contains
            constructor
            · -- the first partial lies before the split and the others do not
              rw [List.map_cons, List.pairwise_cons]
              refine ⟨fun key hkey => ?_, hascending⟩
              obtain ⟨e, he, rfl⟩ := List.mem_map.1 hkey
              exact (hlt split rfl).trans_le (hge e he split rfl)
            · rw [List.forall_mem_cons]
              exact ⟨hlowest, fun e he l hl => (hlow l hl).le.trans (hge e he split rfl)⟩

end Partials

/-! ### Folding partials -/

namespace Aggregation

/-! The folds of the three values never fail. -/

theorem fold_count (total : UInt64) (n : Nat) :
    count.fold total (writeCount n) = .ok (total + UInt64.ofNat n) := by
  have hread : readCount (writeCount n) = .ok (UInt64.ofNat n).toNat := by
    rw [readCount, writeCount, Codec.LongWord.read_write]
    rfl
  simp only [count, hread]
  rw [UInt64.ofNat_toNat]

theorem fold_checksum (total : UInt64) (word : Int64) :
    checksum.fold total (Codec.LongWord.write word) = .ok (total ^^^ word.toUInt64) := by
  simp only [checksum, Codec.LongWord.read_write]

theorem fold_summary (total : Summary Float) (s : Summary Float) :
    summary.fold total (writeSummary s) =
      .ok (total.merge { s with count := s.count % 2 ^ 64 }) := by
  simp only [summary, readSummary_writeSummary]

/-- A fold that does not fail met no fault. -/
theorem eq_map_ok_of_foldItems {α : Type} {a : Aggregation α} {items : List (Except MapError Entry)}
    {total result : α} (h : a.foldItems items total = .ok result) :
    ∃ found : List Entry, items = found.map .ok := by
  induction items generalizing total with
  | nil => exact ⟨[], rfl⟩
  | cons item items ih =>
      cases item with
      | error e => cases h
      | ok e =>
          rw [foldItems] at h
          cases hfold : a.fold total e.value with
          | error fault => simp [hfold] at h
          | ok next =>
              simp only [hfold] at h
              obtain ⟨found, rfl⟩ := ih h
              exact ⟨e :: found, rfl⟩

/-- **The counts of all parts add up to the number of all entries.** -/
theorem foldItems_count {keyCodec valueCodec : Codec} {parts : List (List Entry)}
    {found : List Entry} (h : List.Forall₂ (Partial "count" keyCodec valueCodec) parts found)
    (total : UInt64) :
    count.foldItems (found.map .ok) total =
      .ok (total + UInt64.ofNat parts.flatten.length) := by
  induction h generalizing total with
  | nil => simp [foldItems]
  | @cons part left parts found hleft _ ih =>
      have hvalue : left.value = writeCount part.length := by
        simpa [StandsFor] using hleft.value
      rw [List.map_cons, foldItems, hvalue, fold_count]
      dsimp only
      rw [ih, List.flatten_cons, List.length_append, UInt64.ofNat_add, UInt64.add_assoc]

end Aggregation

end Strata
