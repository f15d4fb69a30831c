/-
**What was written can be read, unless it nests too deep.**

Every codec writes values of any depth that it writes at all, and reads back only what nests no
deeper than a fixed limit.  All that a map ever holds was encoded from pairs that its calls were
given.  So after any calls an entry can be read exactly when neither the key nor the value that it
was encoded from nests too deep; and the checksum and the summary can be had exactly when all the
entries can be read that they are made of.

* `Schema.WrittenAs`, `Container.SizesAnnounced` — what an entry was encoded from;
* `Container.all_run`, `Container.all_wrote` — **all that a map holds was written**;
* `Container.readable_run` — what can be read after any calls;
* `Value.nested`, `Container.unreadable_put` — one deep value.
-/

import Strata.Proofs.Codec.Stable
import Strata.Proofs.Map.Aggregates
import Strata.Proofs.Map.Calls
import Strata.Proofs.Map.Reads

set_option relaxedAutoImplicit false
set_option autoImplicit false

namespace Strata

/-! ### What an entry was encoded from -/

/-- What is put under a key was encoded from it and from its value. -/
theorem Schema.encodes_of_putMutation {s : Schema} {k v : Value} {key value : Bytes}
    (h : s.putMutation k v = .ok (.put key value)) :
    s.keyCodec.encode k = .ok key ∧ s.valueCodec.encode v = .ok value := by
  obtain ⟨keyBytes, hkey, h⟩ := bind_eq_ok.1 h
  obtain ⟨valueBytes, hvalue, h⟩ := bind_eq_ok.1 h
  obtain ⟨rfl, rfl⟩ := Mutation.put.inj (Except.ok.inj h)
  exact ⟨mapError_eq_ok.1 hkey, mapError_eq_ok.1 hvalue⟩

/-- The pair is written as these bytes, and every size in it is announced. -/
structure Schema.WrittenAs (s : Schema) (pair : Value × Value) (key value : Bytes) : Prop where
  key : s.keyCodec.encode pair.1 = .ok key
  value : s.valueCodec.encode pair.2 = .ok value
  keySizes : s.keyCodec.Announces pair.1
  valueSizes : s.valueCodec.Announces pair.2

namespace Container

/-- Every size in what is written is announced: the store takes nothing that is too long, or nothing
in the pairs is. -/
def SizesAnnounced (limits : Limits) (s : Schema) (pairs : List (Value × Value)) : Prop :=
  (limits.maxKeyBytes < 2 ^ 32 ∧ limits.maxValueBytes < 2 ^ 32) ∨
    ∀ pair ∈ pairs, s.keyCodec.Announces pair.1 ∧ s.valueCodec.Announces pair.2

variable {digest : Bytes → Bytes} {order : FieldOrder} {limits : Limits} {s : Schema}
  {pairs : List (Value × Value)}
  {batch : List Mutation} {c : Container}

/-- What an accepted batch puts was encoded from the pairs that it was made of. -/
theorem wrote_of_madeOf (hsizes : SizesAnnounced limits s pairs) (hallows : limits.Allows batch)
    (hmade : MadeOf s pairs batch) {key value : Bytes} (hput : .put key value ∈ batch) :
    ∃ pair ∈ pairs, s.WrittenAs pair key value := by
  obtain ⟨pair, hpair, hm⟩ := hmade key value hput
  obtain ⟨hkey, hvalue⟩ := Schema.encodes_of_putMutation hm
  obtain ⟨hkeyLength, hvalueLength⟩ := hallows.2 _ hput
  have hannounced : s.keyCodec.Announces pair.1 ∧ s.valueCodec.Announces pair.2 := by
    rcases hsizes with ⟨hkeyMax, hvalueMax⟩ | hall
    · exact ⟨Codec.announces_of_length (hkeyLength.trans_lt hkeyMax) hkey,
        Codec.announces_of_length (hvalueLength.trans_lt hvalueMax) hvalue⟩
    · exact hall pair hpair
  exact ⟨pair, hpair, hkey, hvalue, hannounced.1, hannounced.2⟩

/-- What holds of all that accepted batches put holds of all that a map holds after any calls. -/
theorem all_run {P : Bytes → Bytes → Prop} (calls : List MapCall)
    (h : c.Ready digest order limits s) (hempty : c.store.toMap.All fun _ _ => False)
    (hput : ∀ batch, limits.Allows batch → MadeOf s (calls.flatMap MapCall.pairs) batch →
      ∀ key value, .put key value ∈ batch → P key value) :
    (c.run calls).2.Ready digest order limits s ∧ (c.run calls).2.store.toMap.All P := by
  refine h.run (P := fun store => store.toMap.All P) ?_ ?_
  · exact fun key v hv => (hempty key v hv).elim
  · intro store batch hsound hall hallows hmade
    rw [Store.toMap_foldl_apply hsound]
    exact hall.foldl_apply (hput batch hallows hmade)

/-- **All that a map holds was written** by its calls. -/
theorem all_wrote {calls : List MapCall} (h : c.Ready digest order limits s)
    (hsizes : SizesAnnounced limits s (calls.flatMap MapCall.pairs))
    (hempty : c.store.toMap.All fun _ _ => False) :
    (c.run calls).2.Ready digest order limits s ∧
      (c.run calls).2.store.toMap.All fun key value =>
        ∃ pair ∈ calls.flatMap MapCall.pairs, s.WrittenAs pair key value :=
  all_run calls h hempty fun _ hallows hmade _ _ hput =>
    wrote_of_madeOf hsizes hallows hmade hput

/-! ### What can be read -/

variable {e : Entry}

theorem exists_decodeEntry_iff (s : Schema) (e : Entry) :
    (∃ d, (View.base s).decodeEntry e = .ok d) ↔
      (∃ key, s.keyCodec.decode e.key = .ok key) ∧
        ∃ value, s.valueCodec.decode e.value = .ok value := by
  constructor
  · rintro ⟨d, hd⟩
    obtain ⟨hkey, hvalue, -⟩ := View.decodeEntry_eq_ok hd
    exact ⟨⟨d.key, hkey⟩, d.value, mapError_eq_ok.1 hvalue⟩
  · rintro ⟨⟨key, hkey⟩, value, hvalue⟩
    exact ⟨⟨key, value, e.timestamp⟩, bind_eq_ok.2 ⟨key, mapError_eq_ok.2 hkey,
      bind_eq_ok.2 ⟨value, mapError_eq_ok.2 hvalue, rfl⟩⟩⟩

/-- **What can be read after any calls.**  A map was opened over an empty store that is cut
anywhere, and was asked anything; the sizes in what it was given are announced.  Iteration, over
newest versions or all, decodes the entries that it holds.  Each of them was encoded from a pair
that a call was given, and its key and its value can be read exactly when those of the pair nest no
deeper than what is read.  There is a checksum exactly when the newest entries can be read, and a
summary when their values can.  So nothing fails if no pair nests too deep. -/
theorem readable_run (digest : Bytes → Bytes) (order : FieldOrder) (layout : StoreLayout)
    (settings : Settings) (calls : List MapCall) (c : Container)
    (hopen : openMap (Store.ofLayout layout (.builtin digest order)) settings
      (.builtin digest order) = .ok c)
    (hsizes : SizesAnnounced layout.limits c.schema (calls.flatMap MapCall.pairs)) :
    let given := calls.flatMap MapCall.pairs
    let map := (c.run calls).2
    let newest := map.store.contents.entries KeyRange.full .latest
    let all := map.store.contents.entries KeyRange.full .allVersions
    map.base.entries map.store = .ok (newest.map map.base.decodeEntry) ∧
    map.base.multiEntries map.store = .ok (all.map map.base.decodeEntry) ∧
    (∀ e, e ∈ newest ∨ e ∈ all → ∃ pair ∈ given,
      c.schema.keyCodec.encode pair.1 = .ok e.key ∧
      c.schema.valueCodec.encode pair.2 = .ok e.value ∧
      ((∃ d, map.base.decodeEntry e = .ok d) ↔
        pair.1.depth ≤ Codec.depthLimit ∧ pair.2.depth ≤ Codec.depthLimit) ∧
      ((∃ value, map.base.decodeValue e.value = .ok value) ↔ pair.2.depth ≤ Codec.depthLimit)) ∧
    ((∃ word, map.base.checksum map.store = .ok word) ↔
      ∀ e ∈ newest, ∃ d, map.base.decodeEntry e = .ok d) ∧
    ((∃ s, map.base.stats map.store = .ok s) ↔
      ∀ e ∈ newest, ∃ value, map.base.decodeValue e.value = .ok value) ∧
    ((∀ pair ∈ given, pair.1.depth ≤ Codec.depthLimit ∧ pair.2.depth ≤ Codec.depthLimit) →
      (∀ e, e ∈ newest ∨ e ∈ all → ∃ d, map.base.decodeEntry e = .ok d) ∧
      (∃ word, map.base.checksum map.store = .ok word) ∧
      ∃ s, map.base.stats map.store = .ok s) := by
  intro given map newest all
  obtain ⟨hready, hregistry, hmap⟩ := ready_openMap hopen
  have hempty : c.store.toMap.All fun _ _ => False := by
    rw [hmap]
    exact fun key v hv => by cases hv
  obtain ⟨hrun, hall⟩ := all_wrote hready hsizes hempty
  have hbase : map.base = View.base c.schema := congrArg View.base hrun.schema
  have hvalue : ∀ bytes, (∃ value, map.base.decodeValue bytes = .ok value) ↔
      ∃ value, c.schema.valueCodec.decode bytes = .ok value := by
    intro bytes
    rw [hbase]
    exact exists_congr fun value => mapError_eq_ok
  have hwritten : ∀ e, e ∈ newest ∨ e ∈ all →
      ∃ pair ∈ given, c.schema.WrittenAs pair e.key e.value := by
    rintro e (he | he)
    · exact Store.forall_entries_of_all hrun.sound hall _ _ e he
    · exact Store.forall_entries_of_all hrun.sound hall _ _ e he
  -- an entry can be read as deep as the pair that it was encoded from
  have hdepth : ∀ e, e ∈ newest ∨ e ∈ all → ∃ pair ∈ given,
      c.schema.keyCodec.encode pair.1 = .ok e.key ∧
      c.schema.valueCodec.encode pair.2 = .ok e.value ∧
      ((∃ d, map.base.decodeEntry e = .ok d) ↔
        pair.1.depth ≤ Codec.depthLimit ∧ pair.2.depth ≤ Codec.depthLimit) ∧
      ((∃ value, map.base.decodeValue e.value = .ok value) ↔
        pair.2.depth ≤ Codec.depthLimit) := by
    intro e he
    obtain ⟨pair, hpair, hpairs⟩ := hwritten e he
    have hkeyDepth := (Codec.readsBack_encode hpairs.keySizes hpairs.key).exists_iff
    have hvalueDepth := (Codec.readsBack_encode hpairs.valueSizes hpairs.value).exists_iff
    refine ⟨pair, hpair, hpairs.key, hpairs.value, ?_, (hvalue e.value).trans hvalueDepth⟩
    rw [hbase, exists_decodeEntry_iff, hkeyDepth, hvalueDepth]
  have hchecksum : (∃ word, map.base.checksum map.store = .ok word) ↔
      ∀ e ∈ newest, ∃ d, map.base.decodeEntry e = .ok d := by
    rw [hbase, View.exists_checksum_iff hrun.sound hregistry hrun.registry hrun.installed]
    simp only [exists_decodeEntry_iff]
    rfl
  have hstats : (∃ s, map.base.stats map.store = .ok s) ↔
      ∀ e ∈ newest, ∃ value, map.base.decodeValue e.value = .ok value := by
    simp only [hvalue]
    rw [hbase, View.exists_stats_iff hrun.sound hregistry hrun.registry hrun.installed]
  refine ⟨?_, ?_, hdepth, hchecksum, hstats, fun hshallow => ?_⟩
  · rw [hbase]
    exact View.entries_base hrun.sound
  · rw [hbase]
    exact View.multiEntries_base hrun.sound
  · have hread : ∀ e, e ∈ newest ∨ e ∈ all → ∃ d, map.base.decodeEntry e = .ok d := by
      intro e he
      obtain ⟨pair, hpair, -, -, hiff, -⟩ := hdepth e he
      exact hiff.2 (hshallow pair hpair)
    refine ⟨hread, hchecksum.2 fun e he => hread e (Or.inl he), hstats.2 fun e he => ?_⟩
    obtain ⟨pair, hpair, -, -, -, hiff⟩ := hdepth e (Or.inl he)
    exact hiff.2 (hshallow pair hpair).2

/-- A list in a list under one key, with two versions in the packed codec. -/
theorem readable_run_lists :
    let settings : Settings := ⟨"long", "opaque", some 2, 1000⟩
    let layout : StoreLayout := ⟨[Codec.LongWord.write 5], Limits.standard, some 1⟩
    let calls : List MapCall := [.put (.int 1) (.array [.array [.null]]),
      .batch [.put (.int 1) .null, .remove (.int 2)] true]
    ∃ c, openMap (Store.ofLayout layout (.builtin id)) settings (.builtin id) = .ok c ∧
      ∃ word, (c.run calls).2.base.checksum (c.run calls).2.store = .ok word := by
  intro settings layout calls
  have hcodecs : Schema.ofSettings settings (.builtin id) =
      .ok ⟨.long, .packed, settings, .builtin id⟩ := rfl
  have hopen : openMap (Store.ofLayout layout (.builtin id)) settings (.builtin id) =
      .ok ⟨(Store.ofLayout layout (.builtin id)).setRetention (some 2),
        ⟨.long, .packed, settings, .builtin id⟩, false⟩ := by
    rw [openMap, hcodecs]
    rfl
  refine ⟨_, hopen, ?_⟩
  have hrun := readable_run id .asRead layout settings calls _ hopen (Or.inl (by decide))
  obtain ⟨-, -, -, -, -, hshallow⟩ := hrun
  exact (hshallow (by decide)).2.1

end Container

/-! ### One deep value -/

namespace Value

/-- Nothing, in a number of arrays. -/
def nested : Nat → Value
  | 0 => .null
  | n + 1 => .array [nested n]

theorem depth_nested (n : Nat) : (nested n).depth = n := by
  induction n with
  | zero => rfl
  | succ n ih => simp [nested, depth, depthOfItems, ih]

theorem fits_nested (n : Nat) : (nested n).Fits := by
  induction n with
  | zero => trivial
  | succ n ih => exact ⟨show 1 < 2 ^ 32 by decide, ih, trivial⟩

open MessagePack in
/-- Every array takes eight bytes. -/
theorem length_pack_nested (n : Nat) : (Codec.pack (nested n)).length = 8 * n + 5 := by
  induction n with
  | zero => rfl
  | succ n ih =>
      have harray : ∀ doc : Doc, (Codec.entry "Array" (.array [doc])).write =
          [0x81, 0xa5, 0x41, 0x72, 0x72, 0x61, 0x79, 0x91] ++ doc.write := by
        intro doc
        simp only [Codec.entry, Doc.write, writeEntries, writeItems, List.append_nil]
        rfl
      show (Codec.entry "Array" (.array [Codec.toDoc (nested n)])).write.length = _
      rw [Codec.pack] at ih
      rw [harray, List.length_append, ih]
      show 8 + (8 * n + 5) = 8 * (n + 1) + 5
      omega

theorem length_encode_nested (n : Nat) :
    (Codec.FixedPoint.encode (nested n)).length = 8 * n + 7 := by
  have hencode : Codec.FixedPoint.encode (nested n) =
      Codec.FixedPoint.tagged Codec.FixedPoint.tagPacked (Codec.pack (nested n)) := by
    cases n <;> rfl
  rw [hencode, Codec.FixedPoint.tagged, List.length_cons, List.length_cons, length_pack_nested]

end Value

namespace Container

/-- A map with standard settings over an empty store of one partition. -/
def emptyMap (digest : Bytes → Bytes) (order : FieldOrder) : Container where
  store := Store.ofLayout ⟨[], Limits.standard, some 1⟩ (.builtin digest order)
  schema := ⟨.fixedPoint, .fixedPoint, Settings.standard, .builtin digest order⟩
  batchOpen := false

theorem openMap_emptyMap (digest : Bytes → Bytes) (order : FieldOrder) :
    openMap (Store.ofLayout ⟨[], Limits.standard, some 1⟩ (.builtin digest order)) Settings.standard
      (.builtin digest order) = .ok (emptyMap digest order) := by
  have hschema : Schema.ofSettings Settings.standard (.builtin digest order) =
      .ok ⟨.fixedPoint, .fixedPoint, Settings.standard, .builtin digest order⟩ := rfl
  rw [openMap, hschema]
  rfl

/-- A value that nests too deep is written to a map, which cannot be read then. -/
theorem unreadable_of_deep (digest : Bytes → Bytes) (order : FieldOrder) {v : Value}
    (hfits : v.Fits) (hdeep : Codec.depthLimit < v.depth)
    (hlength : (Codec.FixedPoint.encode v).length ≤ Limits.standard.maxValueBytes) :
    let c := emptyMap digest order
    ∃ written, c.putWithoutGet c.base (.int 1) v = .ok written ∧
      written.base.entries written.store = .ok [.error (.decode .malformed)] ∧
      written.base.multiEntries written.store = .ok [.error (.decode .malformed)] ∧
      (¬ ∃ word, written.base.checksum written.store = .ok word) ∧
      ¬ ∃ s, written.base.stats written.store = .ok s := by
  intro c
  let key := Codec.FixedPoint.encode (.int 1)
  let value := Codec.FixedPoint.encode v
  let written : Container := { c with store := c.store.apply (.put key value) }
  have hdecode : Codec.fixedPoint.decode value = .error .malformed := by
    rcases Codec.FixedPoint.readsBack_encode (Codec.announces_of_fits hfits) with
      ⟨hdepth, -⟩ | ⟨-, h⟩
    · exact absurd hdepth (not_le.2 hdeep)
    · exact h
  have hallows : c.store.limits.Allows [.put key value] := by
    refine ⟨show 1 ≤ Limits.standard.maxBatchMutations by decide, ?_⟩
    rw [List.forall_mem_singleton]
    have hkey : (Codec.FixedPoint.encode (.int 1)).length ≤ Limits.standard.maxKeyBytes := by decide
    exact ⟨hkey, hlength⟩
  have hwritten : c.written [.put key value] = .ok written := by
    rw [Container.written, (Limits.checkBatch_eq_ok_iff _).2 hallows]
    rfl
  have hwrite : c.putWithoutGet c.base (.int 1) v = .ok written := by
    rw [putWithoutGet_base, writeAll_eq rfl]
    exact hwritten
  obtain ⟨hopened, hregistry, -⟩ := ready_openMap (openMap_emptyMap digest order)
  have hready : written.Ready digest order Limits.standard c.schema :=
    hopened.writes (writes_of_written hwritten (madeOf_put (List.mem_singleton_self _) rfl))
  have hentries : ∀ mode, written.store.contents.entries KeyRange.full mode =
      [⟨key, value, 1⟩] := by
    intro mode
    cases mode <;> rfl
  have hentry : c.schema.decodeEntry ⟨key, value, 1⟩ = .error (.decode .malformed) := by
    have hkey : c.schema.decodeKey key = .ok (.int 1) :=
      mapError_eq_ok.2 (Codec.FixedPoint.decode_encode_int 1)
    have hvalue : c.schema.decodeValue value = .error (.decode .malformed) := by
      show (Codec.fixedPoint.decode value).mapError MapError.decode = _
      rw [hdecode]
      rfl
    simp only [Schema.decodeEntry, hkey, hvalue]
    rfl
  have hunread : ¬ ∃ w, Codec.fixedPoint.decode value = .ok w := by
    rintro ⟨w, hw⟩
    cases hw.symm.trans hdecode
  refine ⟨written, hwrite, ?_, ?_, ?_, ?_⟩
  · refine (View.entries_base hready.sound).trans ?_
    rw [hentries, List.map_singleton, show written.schema = c.schema from rfl, hentry]
  · refine (View.multiEntries_base hready.sound).trans ?_
    rw [hentries, List.map_singleton, show written.schema = c.schema from rfl, hentry]
  · intro hchecksum
    have hall := (View.exists_checksum_iff hready.sound hregistry hready.registry
      hready.installed).1 hchecksum
    rw [hentries] at hall
    exact hunread (hall _ (List.mem_singleton_self _)).2
  · intro hstats
    have hall := (View.exists_stats_iff hready.sound hregistry hready.registry
      hready.installed).1 hstats
    rw [hentries] at hall
    exact hunread (hall _ (List.mem_singleton_self _))

/-- **A value in 1100 arrays is accepted, and the map cannot be read.** -/
theorem unreadable_put :
    let c := emptyMap id .asRead
    openMap (Store.ofLayout ⟨[], Limits.standard, some 1⟩ (.builtin id)) Settings.standard
      (.builtin id) = .ok c ∧
    ∃ written, c.putWithoutGet c.base (.int 1) (.nested 1100) = .ok written ∧
      written.base.entries written.store = .ok [.error (.decode .malformed)] ∧
      written.base.multiEntries written.store = .ok [.error (.decode .malformed)] ∧
      (¬ ∃ word, written.base.checksum written.store = .ok word) ∧
      ¬ ∃ s, written.base.stats written.store = .ok s := by
  refine ⟨openMap_emptyMap id .asRead, unreadable_of_deep id .asRead (Value.fits_nested 1100) ?_ ?_⟩
  · rw [Value.depth_nested]
    decide
  · rw [Value.length_encode_nested]
    decide

end Container

end Strata
