/-
**The checksum of what was imported.**

An import answers with the sums of the hash codes of all keys and all values, taken from the pairs
as they were given.  The checksum of the map is made of what the store holds: every partition adds
up the hash codes of what its keys and values decode to, and the packed sums are joined bit by bit.
Of pairs that their codecs read back as they are both ways find the same hash codes.  They end in
the same word when the pairs lie in one partition; over several partitions a sum is not the
bitwise join of the partial sums.

* `Codec.Survives`, `Schema.Keeps` — values that are read back as they are;
* `Checksum.joined` — sums that are joined bit by bit;
* `Container.importAll_eq` — what an import writes and answers;
* `Aggregation.share_checksum` — what a partition adds to the checksum;
* `Container.checksum_importAll` — **both words**.
-/

import Strata.Proofs.Map.Aggregates
import Strata.Proofs.Map.Calls
import Strata.Proofs.Value.Equality

set_option relaxedAutoImplicit false
set_option autoImplicit false

namespace Strata

/-! ### Values that are read back as they are -/

namespace Codec

variable {c : Codec} {v : Value}

/-- The value is equal to what the codec reads of what it writes of it. -/
def Survives (c : Codec) (v : Value) : Prop :=
  ∃ bytes w, c.encode v = .ok bytes ∧ c.decode bytes = .ok w ∧ (w == v) = true

/-- The bytes that the codec writes of a value, if it writes any. -/
def bytesOf (c : Codec) (v : Value) : Bytes := (c.encode v).toOption.getD []

/-- The hash code of the value that the codec reads, if it reads one. -/
def codeOf (c : Codec) (bytes : Bytes) : UInt32 :=
  match c.decode bytes with
  | .ok v => v.hashCode
  | .error _ => 0

theorem Survives.encode (h : c.Survives v) : c.encode v = .ok (c.bytesOf v) := by
  obtain ⟨bytes, w, hencode, -, -⟩ := h
  rw [bytesOf, hencode]
  rfl

theorem Survives.decode (h : c.Survives v) : ∃ w, c.decode (c.bytesOf v) = .ok w := by
  obtain ⟨bytes, w, hencode, hdecode, -⟩ := h
  refine ⟨w, ?_⟩
  rw [bytesOf, hencode]
  exact hdecode

/-- **What is read of a value that survives has its hash code.** -/
theorem Survives.codeOf (h : c.Survives v) : c.codeOf (c.bytesOf v) = v.hashCode := by
  obtain ⟨bytes, w, hencode, hdecode, heq⟩ := h
  have hbytes : c.bytesOf v = bytes := by
    rw [bytesOf, hencode]
    rfl
  rw [hbytes, Codec.codeOf, hdecode]
  exact Value.hashCode_eq_of_equal w v (namesDistinct_of_decode hdecode) heq

end Codec

namespace Schema

/-- The key and the value survive their codecs. -/
structure Keeps (s : Schema) (pair : Value × Value) : Prop where
  key : s.keyCodec.Survives pair.1
  value : s.valueCodec.Survives pair.2

/-- The bytes of a key and a value. -/
def bytesOf (s : Schema) (pair : Value × Value) : Bytes × Bytes :=
  (s.keyCodec.bytesOf pair.1, s.valueCodec.bytesOf pair.2)

/-- The hash codes of what is read of a key and a value. -/
def codesOf (s : Schema) (pair : Bytes × Bytes) : UInt32 × UInt32 :=
  (s.keyCodec.codeOf pair.1, s.valueCodec.codeOf pair.2)

/-- The bytes of the key lie in a span. -/
def within (s : Schema) (span : Option Bytes × Option Bytes) (pair : Value × Value) : Bool :=
  match s.keyCodec.encode pair.1 with
  | .ok key => (KeyRange.halfOpen span.1 span.2).contains key
  | .error _ => false

variable {s : Schema} {pair : Value × Value}

theorem Keeps.codesOf (h : s.Keeps pair) :
    s.codesOf (s.bytesOf pair) = (pair.1.hashCode, pair.2.hashCode) :=
  Prod.ext h.key.codeOf h.value.codeOf

theorem Keeps.putMutation (h : s.Keeps pair) :
    s.putMutation pair.1 pair.2 = .ok (.ofPair (s.bytesOf pair)) := by
  rw [Schema.putMutation, encodeKey, encodeValue, h.key.encode, h.value.encode]
  rfl

theorem Keeps.within (h : s.Keeps pair) (span : Option Bytes × Option Bytes) :
    s.within span pair = (KeyRange.halfOpen span.1 span.2).contains (s.bytesOf pair).1 := by
  rw [Schema.within, h.key.encode]
  rfl

end Schema

/-! ### Sums of hash codes -/

namespace Checksum

/-- Sums joined bit by bit, in one word. -/
def joined (word : UInt64) (parts : List Checksum) : UInt64 :=
  parts.foldl (fun word part => word ^^^ part.packed) word

theorem joined_of_empty {parts : List Checksum} (h : ∀ part ∈ parts, part = empty)
    (word : UInt64) : joined word parts = word := by
  induction parts generalizing word with
  | nil => rfl
  | cons part parts ih =>
      rw [List.forall_mem_cons] at h
      have hnone : word ^^^ part.packed = word := by simp [h.1, empty, packed]
      rw [joined, List.foldl_cons, hnone]
      exact ih h.2 word

/-- What is added up of readable entries are the hash codes of what is read. -/
theorem foldlM_addHashes {keyCodec valueCodec : Codec} {entries : List Entry}
    (h : ∀ e ∈ entries, (∃ key, keyCodec.decode e.key = .ok key) ∧
      ∃ value, valueCodec.decode e.value = .ok value) (c : Checksum) :
    entries.foldlM (addHashes keyCodec valueCodec) c =
      .ok ((entries.map fun e => (keyCodec.codeOf e.key, valueCodec.codeOf e.value)).foldl
        plus c) := by
  induction entries generalizing c with
  | nil => rfl
  | cons e entries ih =>
      rw [List.forall_mem_cons] at h
      obtain ⟨⟨⟨key, hkey⟩, value, hvalue⟩, hrest⟩ := h
      have hone : addHashes keyCodec valueCodec c e = .ok (c.add key value) := by
        rw [addHashes, hkey, hvalue]
        rfl
      have hplus : c.plus (keyCodec.codeOf e.key, valueCodec.codeOf e.value) = c.add key value := by
        simp only [plus, add, Codec.codeOf, hkey, hvalue]
      rw [List.foldlM_cons, hone, List.map_cons, List.foldl_cons, hplus]
      exact ih hrest _

end Checksum

/-! ### Imports -/

namespace Container

variable {c : Container} {pairs : List (Value × Value)}

theorem mapM_putMutation {s : Schema} (h : ∀ pair ∈ pairs, s.Keeps pair) :
    pairs.mapM (fun pair => s.putMutation pair.1 pair.2) =
      .ok ((pairs.map s.bytesOf).map Mutation.ofPair) := by
  induction pairs with
  | nil => rfl
  | cons pair pairs ih =>
      rw [List.forall_mem_cons] at h
      rw [List.mapM_cons, h.1.putMutation, ih h.2]
      rfl

/-- **An import of pairs that survive** writes them all, if the limits allow it, and answers with
the sums of the hash codes of what it was given. -/
theorem importAll_eq (hslot : c.batchOpen = false) (h : ∀ pair ∈ pairs, c.schema.Keeps pair) :
    let batch := (pairs.map c.schema.bytesOf).map Mutation.ofPair
    (¬ c.store.limits.Allows batch →
      ∃ reason, c.importAll c.base id pairs = .error (.writeRejected reason)) ∧
    (c.store.limits.Allows batch →
      c.importAll c.base id pairs = .ok ((Checksum.ofPairs pairs).packed,
        { c with store := batch.foldl Store.apply c.store })) := by
  intro batch
  have hbatch : mutationsOf c.schema id pairs = .ok batch := mapM_putMutation h
  rw [importAll_base, hbatch, writeAll_eq hslot]
  show (_ → ∃ reason, (c.written batch).map _ = _) ∧ (_ → (c.written batch).map _ = _)
  rw [written]
  constructor
  · intro hdenied
    cases hviolation : c.store.limits.checkBatch batch with
    | ok => exact absurd ((Limits.checkBatch_eq_ok_iff batch).1 hviolation) hdenied
    | error violation => exact ⟨violation.message, rfl⟩
  · intro hallowed
    rw [(Limits.checkBatch_eq_ok_iff batch).2 hallowed]
    rfl

end Container

/-! ### What partitions add -/

namespace View

/-- The checksum operator over the map itself. -/
def checksumSetting (schema : Schema) : Setting :=
  ⟨"checksum", firstPriority, (View.base schema).inputOptions []⟩

/-- What the checksum operator leaves of a partition. -/
def checksumOperator (schema : Schema) : Operator :=
  gather fun entries =>
    (entries.foldlM (addHashes schema.keyCodec schema.valueCodec) Checksum.empty).map fun c =>
      Codec.LongWord.write c.packed.toInt64

end View

namespace Aggregation

open View

/-- What one partition adds to the checksum, if all that it holds can be read. -/
theorem share_checksum {registry : Registry} {schema : Schema}
    (hbuild : registry.build (checksumSetting schema) = .ok (checksumOperator schema))
    {p : Partition} (hspan : ∀ row ∈ p.rows, p.span.contains row.1 = true)
    (hread : ∀ e ∈ p.rows.entries KeyRange.full .latest,
      (∃ key, schema.keyCodec.decode e.key = .ok key) ∧
        ∃ value, schema.valueCodec.decode e.value = .ok value) (word : UInt64) :
    checksum.share registry ⟨KeyRange.full, .latest, [checksumSetting schema]⟩ word p =
      .ok (word ^^^ ((((p.rows.entries KeyRange.full .latest).map Entry.pair).map
        schema.codesOf).foldl Checksum.plus Checksum.empty).packed) := by
  let entries := p.rows.entries KeyRange.full .latest
  let sums := ((entries.map Entry.pair).map schema.codesOf).foldl Checksum.plus Checksum.empty
  have hsums : entries.foldlM (addHashes schema.keyCodec schema.valueCodec) Checksum.empty =
      .ok sums := by
    rw [Checksum.foldlM_addHashes hread]
    simp only [sums, List.map_map]
    rfl
  have hnothing : entries = [] → word ^^^ sums.packed = word := by
    intro hnil
    simp [sums, hnil, Checksum.packed, Checksum.empty]
  show _ = Except.ok (word ^^^ sums.packed)
  refine (checksum.share_gather hbuild hspan word).trans ?_
  rw [gathered]
  split
  · next hnil => rw [hnothing hnil]
  · show ((hashesOf schema entries).mapError MapError.ofOperatorError).bind
      (checksum.fold word) = _
    rw [hashesOf, hsums]
    exact fold_checksum word sums.packed.toInt64

end Aggregation

/-! ### The checksum of what a map holds -/

section Held

variable {schema : Schema} {store : Store} {pairs : List (Value × Value)}

theorem filter_bytesOf (h : ∀ pair ∈ pairs, schema.Keeps pair)
    (span : Option Bytes × Option Bytes) :
    ((pairs.map schema.bytesOf).filter fun pair =>
        (KeyRange.halfOpen span.1 span.2).contains pair.1) =
      (pairs.filter (schema.within span)).map schema.bytesOf := by
  rw [List.filter_map]
  refine congrArg _ (List.filter_congr ?_)
  intro pair hpair
  exact ((h pair hpair).within span).symm

theorem map_codesOf (h : ∀ pair ∈ pairs, schema.Keeps pair) :
    (pairs.map schema.bytesOf).map schema.codesOf =
      pairs.map fun pair => (pair.1.hashCode, pair.2.hashCode) := by
  rw [List.map_map]
  refine List.map_congr_left ?_
  intro pair hpair
  exact (h pair hpair).codesOf

variable (hstore : store.Sound) (hkeeps : ∀ pair ∈ pairs, schema.Keeps pair)
  (hheld : store.newest.Perm (pairs.map schema.bytesOf))

include hstore hkeeps hheld

/-- What a partition holds can be read, and adds up to the sums of the pairs of its span. -/
theorem sums_partition {p : Partition} (hp : p ∈ store.partitions) :
    (∀ e ∈ p.rows.entries KeyRange.full .latest,
      (∃ key, schema.keyCodec.decode e.key = .ok key) ∧
        ∃ value, schema.valueCodec.decode e.value = .ok value) ∧
    (((p.rows.entries KeyRange.full .latest).map Entry.pair).map schema.codesOf).foldl
        Checksum.plus Checksum.empty =
      Checksum.ofPairs (pairs.filter (schema.within (p.low, p.high))) := by
  have hpart : ((p.rows.entries KeyRange.full .latest).map Entry.pair).Perm
      ((pairs.filter (schema.within (p.low, p.high))).map schema.bytesOf) := by
    rw [Store.newest_partition hstore hp, ← filter_bytesOf hkeeps]
    exact hheld.filter _
  have hkept : ∀ pair ∈ pairs.filter (schema.within (p.low, p.high)), schema.Keeps pair :=
    fun pair hpair => hkeeps pair (List.mem_filter.1 hpair).1
  constructor
  · intro e he
    obtain ⟨pair, hpair, heq⟩ := List.mem_map.1 (hpart.subset (List.mem_map_of_mem he))
    obtain ⟨hkey, hvalue⟩ := Prod.ext_iff.1 heq
    have hkeep := hkept pair hpair
    rw [show e.key = (schema.bytesOf pair).1 from hkey.symm,
      show e.value = (schema.bytesOf pair).2 from hvalue.symm]
    exact ⟨hkeep.key.decode, hkeep.value.decode⟩
  · rw [Checksum.foldl_plus_perm (hpart.map _), map_codesOf hkept, Checksum.ofPairs_eq]

theorem foldlM_share_checksum {registry : Registry}
    (hbuild : registry.build (View.checksumSetting schema) = .ok (View.checksumOperator schema))
    {partitions : List Partition} (hsub : ∀ p ∈ partitions, p ∈ store.partitions) (word : UInt64) :
    partitions.foldlM (Aggregation.checksum.share registry
        ⟨KeyRange.full, .latest, [View.checksumSetting schema]⟩) word =
      .ok (Checksum.joined word ((spansOf partitions).map fun span =>
        Checksum.ofPairs (pairs.filter (schema.within span)))) := by
  induction partitions generalizing word with
  | nil => rfl
  | cons p partitions ih =>
      rw [List.forall_mem_cons] at hsub
      obtain ⟨hread, hsums⟩ := sums_partition hstore hkeeps hheld hsub.1
      have hshare := Aggregation.share_checksum hbuild (hstore.placed.inSpan p hsub.1) hread word
      rw [hsums] at hshare
      rw [List.foldlM_cons, hshare]
      exact ih hsub.2 _

/-- **The checksum of a map** joins what the pairs in each span add up to. -/
theorem checksum_of_held {digest : Bytes → Bytes} {order : FieldOrder}
    (hregistry : schema.registry = store.registry)
    (hfind : schema.registry.find? "checksum" = (Registry.builtin digest order).find? "checksum")
    (hruns : ∀ p ∈ store.partitions, p.runs "checksum" = true) :
    (View.base schema).checksum store =
      .ok (Checksum.joined 0 (store.bounds.map fun span =>
        Checksum.ofPairs (pairs.filter (schema.within span)))) := by
  obtain ⟨hbuild, hshares⟩ := View.aggregate_shares (View.gathersBase_checksum hfind) hruns
  rw [View.checksum, hshares]
  exact foldlM_share_checksum hstore hkeeps hheld (hregistry ▸ hbuild) (fun p hp => hp) 0

omit hheld in
/-- **If one partition holds all pairs** the checksum is what they add up to. -/
theorem joined_of_one {span : Option Bytes × Option Bytes} (hspan : span ∈ store.bounds)
    (hall : ∀ pair ∈ pairs, schema.within span pair = true) :
    Checksum.joined 0 (store.bounds.map fun span =>
      Checksum.ofPairs (pairs.filter (schema.within span))) = (Checksum.ofPairs pairs).packed := by
  obtain ⟨p, hp, rfl⟩ := List.mem_map.1 hspan
  have happart := hstore.tiles.pairwise_apart
  obtain ⟨before, after, hsplit⟩ := List.append_of_mem hp
  rw [hsplit] at happart
  obtain ⟨-, hafter, hbefore⟩ := List.pairwise_append.1 happart
  have hin : ∀ pair ∈ pairs, p.span.contains (schema.bytesOf pair).1 = true := by
    intro pair hpair
    exact ((hkeeps pair hpair).within _).symm.trans (hall pair hpair)
  -- no pair lies in the span of another partition
  have hnone : ∀ others : List Partition,
      (∀ q ∈ others, ∀ key, p.span.contains key = true → q.span.contains key = false) →
      ∀ part ∈ (spansOf others).map fun span =>
        Checksum.ofPairs (pairs.filter (schema.within span)), part = Checksum.empty := by
    intro others hother part hpart
    simp only [spansOf, List.map_map, List.mem_map, Function.comp_apply] at hpart
    obtain ⟨q, hq, rfl⟩ := hpart
    have hnil : pairs.filter (schema.within (q.low, q.high)) = [] := by
      refine List.filter_eq_nil_iff.2 ?_
      intro pair hpair
      have hout : q.span.contains (schema.bytesOf pair).1 = false :=
        hother q hq _ (hin pair hpair)
      rw [(hkeeps pair hpair).within]
      simpa [Partition.span] using hout
    rw [hnil]
    rfl
  have hself : pairs.filter (schema.within (p.low, p.high)) = pairs :=
    List.filter_eq_self.2 hall
  have hbounds : store.bounds = spansOf before ++ (p.low, p.high) :: spansOf after := by
    simp [Store.bounds, hsplit, spansOf]
  have hzero : (0 : UInt64) ^^^ (Checksum.ofPairs pairs).packed =
      (Checksum.ofPairs pairs).packed := UInt64.zero_xor
  rw [hbounds, List.map_append, List.map_cons, Checksum.joined, List.foldl_append,
    List.foldl_cons, ← Checksum.joined, ← Checksum.joined,
    Checksum.joined_of_empty (hnone before fun q hq key =>
      (hbefore q hq p (List.mem_cons_self ..)).contains_right),
    hself, hzero, Checksum.joined_of_empty (hnone after fun q hq key =>
      ((List.pairwise_cons.1 hafter).1 q hq).contains_left)]

end Held

/-! ### Imports into empty maps -/

/-- The store after an import into one that was empty holds the pairs, and apart from that is as it
was. -/
theorem Store.Sound.newest_import {schema : Schema} {store : Store} {pairs : List (Value × Value)}
    (h : store.Sound) (hcontents : store.contents = [])
    (hkeeps : ∀ pair ∈ pairs, schema.Keeps pair)
    (hkeys : (pairs.map fun pair => schema.keyCodec.encode pair.1).Nodup) :
    (((pairs.map schema.bytesOf).map Mutation.ofPair).foldl Store.apply store).newest.Perm
      (pairs.map schema.bytesOf) := by
  have hempty : store.newest = [] := by
    rw [Store.newest, hcontents]
    rfl
  have hencode : ((pairs.map schema.bytesOf).map Prod.fst).map Except.ok =
      pairs.map fun pair => schema.keyCodec.encode pair.1 := by
    rw [List.map_map, List.map_map]
    refine List.map_congr_left ?_
    intro pair hpair
    exact (hkeeps pair hpair).key.encode.symm
  have hnodup : ((pairs.map schema.bytesOf).map Prod.fst ++ store.newest.map Prod.fst).Nodup := by
    rw [hempty, List.map_nil, List.append_nil]
    exact List.Nodup.of_map Except.ok (hencode ▸ hkeys)
  have hputs := Store.newest_puts h hnodup
  rwa [hempty, List.append_nil] at hputs

namespace Container

/-- **What an import answers, and the checksum of the map then.**  A list of pairs with keys of
their own, all read back as they are, is imported into a map that holds nothing.  Unless the limits
refuse the batch the import answers with the sums of all hash codes.  The checksum of the map joins
the sums over the pairs of each span bit by bit, so it is the same word if one partition holds all
pairs, as without split points. -/
theorem checksum_importAll (digest : Bytes → Bytes) (order : FieldOrder) (layout : StoreLayout)
    (registry : Registry) (calls : List StoreCall) (schema : Schema)
    (hregistry : schema.registry = registry)
    (hfind : registry.find? "checksum" = (Registry.builtin digest order).find? "checksum")
    (pairs : List (Value × Value)) (hkeeps : ∀ pair ∈ pairs, schema.Keeps pair)
    (hkeys : (pairs.map fun pair => schema.keyCodec.encode pair.1).Nodup) :
    let store := (Store.ofLayout layout registry).run calls
    let c : Container := ⟨store, schema, false⟩
    store.contents = [] → (∀ p ∈ store.partitions, p.runs "checksum" = true) →
    ∃ batch, pairs.mapM (fun pair => schema.putMutation pair.1 pair.2) = .ok batch ∧
      (¬ layout.limits.Allows batch →
        ∃ reason, c.importAll c.base id pairs = .error (.writeRejected reason)) ∧
      (layout.limits.Allows batch →
        ∃ written, c.importAll c.base id pairs = .ok ((Checksum.ofPairs pairs).packed, written) ∧
          written.base.checksum written.store =
            .ok (Checksum.joined 0 ((spans none (sortKeys layout.splits)).map fun span =>
              Checksum.ofPairs (pairs.filter (schema.within span)))) ∧
          (∀ span ∈ spans none (sortKeys layout.splits),
            (∀ pair ∈ pairs, schema.within span pair = true) →
              written.base.checksum written.store = .ok (Checksum.ofPairs pairs).packed) ∧
          (layout.splits = [] →
            written.base.checksum written.store = .ok (Checksum.ofPairs pairs).packed)) := by
  intro store c hcontents hruns
  have hlayout : (Store.ofLayout layout registry).Sound := Store.Sound.ofLayout layout registry
  obtain ⟨hsound, hlimits, -⟩ := Store.toMap_run hlayout calls
  let batch := (pairs.map schema.bytesOf).map Mutation.ofPair
  obtain ⟨hdenied, hallowed⟩ := importAll_eq (c := c) rfl hkeeps
  rw [show c.store.limits = layout.limits from hlimits] at hdenied hallowed
  refine ⟨batch, mapM_putMutation hkeeps, hdenied, fun hallows => ⟨_, hallowed hallows, ?_⟩⟩
  let after := batch.foldl Store.apply store
  have hafter : after.Sound := hsound.foldl_apply batch
  have hspans : after.bounds = spans none (sortKeys layout.splits) := by
    rw [Store.bounds_foldl_apply hsound, Store.bounds_run hlayout, Store.bounds_ofLayout]
  have hsame : schema.registry = after.registry := by
    rw [Store.registry_foldl_apply, Store.registry_run]
    exact hregistry
  have hinstalled : ∀ p ∈ after.partitions, p.runs "checksum" = true := by
    intro p hp
    obtain ⟨q, hq, heq⟩ := Store.runs_foldl_apply batch p hp
    rw [heq]
    exact hruns q hq
  have hheld := hsound.newest_import hcontents hkeeps hkeys
  have hchecksum := checksum_of_held hafter hkeeps hheld hsame (hregistry ▸ hfind) hinstalled
  have hone : ∀ span ∈ after.bounds, (∀ pair ∈ pairs, schema.within span pair = true) →
      (View.base schema).checksum after = .ok (Checksum.ofPairs pairs).packed := by
    intro span hspan hall
    rw [hchecksum, joined_of_one hafter hkeeps hspan hall]
  rw [hspans] at hchecksum hone
  refine ⟨hchecksum, hone, fun hsplits => ?_⟩
  rw [hsplits] at hone
  refine hone (none, none) (List.mem_singleton_self _) ?_
  intro pair hpair
  exact (hkeeps pair hpair).within _

/-- Two pairs of one partition are imported into a store of two. -/
theorem checksum_importAll_upper :
    let two := Codec.FixedPoint.encode (.int 2)
    let layout : StoreLayout := ⟨[two], Limits.standard, some 1⟩
    let schema : Schema := ⟨.fixedPoint, .fixedPoint, Settings.standard, .builtin id⟩
    let c : Container := ⟨Store.ofLayout layout (.builtin id), schema, false⟩
    let pairs : List (Value × Value) := [(.int 3, .text "c"), (.int 2, .text "b")]
    ∃ written, c.importAll c.base id pairs = .ok ((Checksum.ofPairs pairs).packed, written) ∧
      written.base.checksum written.store = .ok (Checksum.ofPairs pairs).packed := by
  intro two layout schema c pairs
  have hkeeps : ∀ pair ∈ pairs, schema.Keeps pair := by
    intro pair hpair
    simp only [pairs, List.mem_cons, List.not_mem_nil, or_false] at hpair
    rcases hpair with rfl | rfl
    · exact ⟨⟨_, .int 3, rfl, rfl, by decide⟩, ⟨_, .text "c", rfl, rfl, by decide⟩⟩
    · exact ⟨⟨_, .int 2, rfl, rfl, by decide⟩, ⟨_, .text "b", rfl, rfl, by decide⟩⟩
  obtain ⟨batch, hbatch, -, hwritten⟩ :=
    checksum_importAll id .asRead layout (.builtin id) [] schema rfl rfl pairs hkeeps (by decide)
      rfl
      (by simp only [Registry.builtin_eq]; decide)
  have hallows : layout.limits.Allows batch := by
    obtain rfl := Except.ok.inj hbatch
    decide
  obtain ⟨written, himport, -, hone, -⟩ := hwritten hallows
  refine ⟨written, himport, hone (some two, none) (by decide) ?_⟩
  decide

/-- **Over two partitions** the word of an import is not the checksum of the map. -/
theorem checksum_ne_importAll :
    let two := Codec.FixedPoint.encode (.int 2)
    let layout : StoreLayout := ⟨[two], Limits.standard, some 1⟩
    let schema : Schema := ⟨.fixedPoint, .fixedPoint, Settings.standard, .builtin id⟩
    let c : Container := ⟨Store.ofLayout layout (.builtin id), schema, false⟩
    let pairs : List (Value × Value) := [(.int 1, .int 1), (.int 3, .int 3)]
    (∀ pair ∈ pairs, schema.Keeps pair) ∧
      (pairs.map fun pair => schema.keyCodec.encode pair.1).Nodup ∧ c.store.contents = [] ∧
      ∃ written, c.importAll c.base id pairs = .ok (17179869188, written) ∧
        written.base.checksum written.store = .ok 8589934594 := by
  intro two layout schema c pairs
  have hkeeps : ∀ pair ∈ pairs, schema.Keeps pair := by
    intro pair hpair
    simp only [pairs, List.mem_cons, List.not_mem_nil, or_false] at hpair
    rcases hpair with rfl | rfl
    · exact ⟨⟨_, .int 1, rfl, rfl, by decide⟩, ⟨_, .int 1, rfl, rfl, by decide⟩⟩
    · exact ⟨⟨_, .int 3, rfl, rfl, by decide⟩, ⟨_, .int 3, rfl, rfl, by decide⟩⟩
  have hkeys : (pairs.map fun pair => schema.keyCodec.encode pair.1).Nodup := by decide
  have hword : (Checksum.ofPairs pairs).packed = 17179869188 := by decide
  have himport := (importAll_eq (c := c) rfl hkeeps).2 (by decide)
  rw [hword] at himport
  refine ⟨hkeeps, hkeys, rfl, _, himport, ?_⟩
  -- each of the two partitions holds one of the pairs
  let batch := (pairs.map schema.bytesOf).map Mutation.ofPair
  have hempty : c.store.Sound := Store.Sound.ofLayout layout (.builtin id)
  have hheld := hempty.newest_import rfl hkeeps hkeys
  have hregistry : (batch.foldl Store.apply c.store).registry = schema.registry :=
    Store.registry_foldl_apply batch
  have hruns : ∀ p ∈ c.store.partitions, p.runs "checksum" = true := by
    simp only [c, Registry.builtin_eq]
    decide
  have hinstalled : ∀ p ∈ (batch.foldl Store.apply c.store).partitions,
      p.runs "checksum" = true := by
    intro p hp
    obtain ⟨q, hq, heq⟩ := Store.runs_foldl_apply batch p hp
    exact heq ▸ hruns q hq
  have hchecksum := checksum_of_held (hempty.foldl_apply batch) hkeeps hheld hregistry.symm rfl
    hinstalled
  rw [Store.bounds_foldl_apply hempty batch] at hchecksum
  refine hchecksum.trans (congrArg Except.ok ?_)
  decide

end Container

end Strata
