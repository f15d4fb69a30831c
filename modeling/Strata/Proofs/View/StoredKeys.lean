/-
**Stored keys and what is read of them.**

What a map shows as a key was read out of the bytes of a stored key.  A read of that key writes it
again, and finds the entry if the bytes are the same: so it does for every stored key but that of
the doubles just below zero, which are shown as zero and sought where zero is stored.  Two stored
keys that are shown as one key would have to be written as the same bytes, so they are the same.

* `View.Finds` — reads of what an entry was decoded to find the entry;
* `Store.find?_latest` — in a store a key has one newest entry;
* `View.Sound.lookup_again`, `View.finds_of_lookup` — reads of a key that is written again;
* `View.stored_keys` — **which stored keys are found by what is shown of them**;
* `View.lost_key_not_found` — one that is not.
-/

import Strata.Proofs.Codec.Stable
import Strata.Proofs.View.PointReads

set_option relaxedAutoImplicit false
set_option autoImplicit false

namespace Strata

/-! ### One entry of a key -/

/-- Among entries with keys of their own, the first of a key is the only one. -/
theorem find?_key_of_nodup {entries : List Entry} (h : (entries.map (·.key)).Nodup) {e : Entry}
    (he : e ∈ entries) : (entries.find? fun other => other.key == e.key) = some e := by
  induction entries with
  | nil => cases he
  | cons first rest ih =>
      obtain ⟨hfirst, hrest⟩ := List.nodup_cons.1 h
      rcases List.mem_cons.1 he with rfl | he
      · simp
      · have hne : first.key ≠ e.key := by
          intro heq
          exact hfirst (List.mem_map.2 ⟨e, he, heq.symm⟩)
        rw [List.find?_cons, beq_false_of_ne hne]
        exact ih hrest he

/-- Rows in their order have one newest entry each. -/
theorem Store.nodup_keys_latest {rows : Rows} (h : rows.Sorted) (range : KeyRange) :
    ((rows.entries range .latest).map (·.key)).Nodup := by
  have hkeys : (rows.entries range .latest).map (·.key) =
      (rows.filter fun row => range.contains row.1).map Prod.fst := by
    rw [Rows.entries, List.map_flatMap]
    exact List.flatMap_pure_eq_map ..
  have hsorted : (rows.filter fun row => range.contains row.1).Pairwise fun a b => a.1 < b.1 :=
    h.filter _
  rw [hkeys, List.Nodup, List.pairwise_map]
  exact hsorted.imp fun hlt => ne_of_lt hlt

namespace View

variable {v : View} {store : Store} {e : Entry} {d : DecodedEntry}

/-! ### Reads of what is shown -/

/-- Reads of the key that an entry was decoded to find the entry. -/
structure Finds (v : View) (store : Store) (e : Entry) (d : DecodedEntry) : Prop where
  lookup : v.lookup store d.key = .ok (some e)
  get : v.get store d.key = .ok (some d.value)
  getTimestamp : v.getTimestamp store d.key = .ok (some d.timestamp)
  containsKey : v.containsKey store d.key = .ok true

/-- What a decoded entry consists of. -/
theorem decodeEntry_eq_ok (h : v.decodeEntry e = .ok d) :
    v.schema.keyCodec.decode e.key = .ok d.key ∧ v.decodeValue e.value = .ok d.value ∧
      d.timestamp = e.timestamp := by
  obtain ⟨key, hkey, h⟩ := bind_eq_ok.1 h
  obtain ⟨value, hvalue, h⟩ := bind_eq_ok.1 h
  obtain rfl := Except.ok.inj h
  exact ⟨mapError_eq_ok.1 hkey, hvalue, rfl⟩

theorem finds_of_lookup (hdecoded : v.decodeEntry e = .ok d)
    (hlookup : v.lookup store d.key = .ok (some e)) : v.Finds store e d := by
  obtain ⟨-, hvalue, htimestamp⟩ := decodeEntry_eq_ok hdecoded
  refine ⟨hlookup, ?_, ?_, containsKey_of_lookup hlookup⟩
  · rw [get_of_lookup hlookup]
    show (v.decodeValue e.value).map some = _
    rw [hvalue]
    rfl
  · rw [getTimestamp, hlookup, htimestamp]
    rfl

section Reads

variable {own : List Entry} {k : Value}

/-- A read of a key that is written as the bytes of an entry finds the first entry of them. -/
theorem Sound.lookup_again (h : v.Sound) (hstore : store.Sound)
    (hlocal : ∀ s ∈ v.settings, store.registry.KeyLocal s)
    (hown : v.scan store none v.top.mode = .ok (own.map .ok))
    (hkey : v.schema.keyCodec.Encodes k e.key) (hkept : ¬ v.schema.keyCodec.LosesSign k)
    (hdecoded : v.decodeEntry e = .ok d) :
    v.lookup store d.key = .ok (own.find? fun other => other.key == e.key) := by
  have hagain := (hkey.again_iff (decodeEntry_eq_ok hdecoded).1).2 hkept
  exact h.lookup_eq hstore hlocal hown (mapError_eq_ok.2 hagain)

/-- What is found of a key is an entry of the bytes that are written of it. -/
theorem Sound.encode_of_lookup (h : v.Sound) (hstore : store.Sound)
    (hlocal : ∀ s ∈ v.settings, store.registry.KeyLocal s)
    (hown : v.scan store none v.top.mode = .ok (own.map .ok)) {key : Value}
    (hlookup : v.lookup store key = .ok (some e)) : v.schema.keyCodec.encode key = .ok e.key := by
  obtain ⟨bytes, hbytes, -⟩ := bind_eq_ok.1 hlookup
  have hfound := h.lookup_eq hstore hlocal hown hbytes
  rw [hlookup] at hfound
  have heq : e.key = bytes := by
    simpa using List.find?_some (Except.ok.inj hfound).symm
  rw [heq]
  exact mapError_eq_ok.1 hbytes

/-- **Where reads of a key find its entry**, among entries with keys of their own. -/
theorem Sound.finds_iff (h : v.Sound) (hstore : store.Sound)
    (hlocal : ∀ s ∈ v.settings, store.registry.KeyLocal s)
    (hown : v.scan store none v.top.mode = .ok (own.map .ok))
    (hnodup : (own.map (·.key)).Nodup) (he : e ∈ own)
    (hkey : v.schema.keyCodec.Encodes k e.key) (hdecoded : v.decodeEntry e = .ok d) :
    v.Finds store e d ↔ ¬ v.schema.keyCodec.LosesSign k := by
  constructor
  · intro hfinds
    have hagain := h.encode_of_lookup hstore hlocal hown hfinds.lookup
    exact (hkey.again_iff (decodeEntry_eq_ok hdecoded).1).1 hagain
  · intro hkept
    refine finds_of_lookup hdecoded ?_
    rw [h.lookup_again hstore hlocal hown hkey hkept hdecoded, find?_key_of_nodup hnodup he]

end Reads

/-- The map itself shows the entries of every key. -/
theorem scan_base (hstore : store.Sound) (schema : Schema) {mode : ScanMode} :
    (View.base schema).scan store none mode =
      .ok ((store.contents.entries KeyRange.full mode).map .ok) := by
  rw [(Sound.base schema).scan_eq (by simp [View.kind, View.base])]
  show Except.ok ((store.scan (Scanner.ofRange KeyRange.full mode)).map ofItem) = _
  rw [hstore.scan_ofRange, map_ofItem_ok]

theorem keys_of_scan {own : List Entry}
    (hown : v.scan store none v.top.mode = .ok (own.map .ok)) :
    v.keys store = .ok (own.map fun e => (v.decodeEntry e).map (·.key)) := by
  rw [keys, entries, hown]
  simp only [Except.map, List.map_map]
  rfl

/-! ### Stored keys -/

/-- **Which stored keys are found by what is shown of them.**  The store was changed in any way, and
a view without an aggregate was derived in any way from its map; where it is iterated over, nothing
fails.  The codec writes what it reads of the bytes of a value as the same bytes, unless the value
is a double just below zero, of which there is one byte string, read as zero.  Apart from these a
read of a key that the view shows finds the first entry of its bytes, which is the entry itself if
the view shows no other of them, as the map does not; and different bytes are not shown as one key,
nor as equal keys without a sign of zero. -/
theorem stored_keys (digest : Bytes → Bytes) (order : FieldOrder) (layout : StoreLayout)
    (calls : List StoreCall) (schema : Schema)
    (hregistry : schema.registry = .builtin digest order) :
    let store := (Store.ofLayout layout (.builtin digest order)).run calls
    let c := schema.keyCodec
    let held := store.contents.entries KeyRange.full .latest
    (∀ (k w : Value) (bytes : Bytes), c.Encodes k bytes → c.decode bytes = .ok w →
      (c.encode w = .ok bytes ↔ ¬ c.LosesSign k) ∧
      (c.LosesSign k → bytes = Codec.FixedPoint.lost ∧ w = .float 0)) ∧
    ((View.base schema).scan store none .latest = .ok (held.map .ok) ∧
      (held.map (·.key)).Nodup) ∧
    ∀ (steps : List Step) (v : View) (own : List Entry),
      (View.base schema).derived steps = .ok v →
      (∀ layer ∈ v.layers, layer.kind ≠ .aggregated) →
      v.scan store none v.top.mode = .ok (own.map .ok) →
      v.keys store = .ok (own.map fun e => (v.decodeEntry e).map (·.key)) ∧
      (∀ e ∈ own, ∀ (k : Value) (d : DecodedEntry), c.Encodes k e.key → v.decodeEntry e = .ok d →
        (¬ c.LosesSign k →
          v.lookup store d.key = .ok (own.find? fun other => other.key == e.key) ∧
          v.containsKey store d.key = .ok true) ∧
        ((own.map (·.key)).Nodup → (v.Finds store e d ↔ ¬ c.LosesSign k))) ∧
      ∀ e ∈ own, ∀ e' ∈ own, ∀ (k k' : Value) (d d' : DecodedEntry),
        c.Encodes k e.key → c.Encodes k' e'.key → ¬ c.LosesSign k → ¬ c.LosesSign k' →
        v.decodeEntry e = .ok d → v.decodeEntry e' = .ok d' →
        (d.key = d'.key → e.key = e'.key) ∧
        ((d.key == d'.key) = true → d.key.PlainZeros → d'.key.PlainZeros → e.key = e'.key) := by
  intro store c held
  have hstore : store.Sound := Store.sound_run layout _ calls
  have hstoreRegistry : store.registry = .builtin digest order := Store.registry_run _ calls
  refine ⟨?_, ⟨scan_base hstore schema, Store.nodup_keys_latest hstore.sorted_contents _⟩, ?_⟩
  · intro k w bytes hk hw
    refine ⟨hk.again_iff hw, ?_⟩
    intro hlost
    obtain ⟨-, hbytes, hzero⟩ := hk.lost hlost
    exact ⟨hbytes, Except.ok.inj (hw.symm.trans hzero)⟩
  · intro steps v own hview hplain hown
    have h : v.Sound := (Sound.base schema).derived hview
    have hschema : v.schema = schema := schema_derived hview
    have hlocal : ∀ s ∈ v.settings, store.registry.KeyLocal s := by
      rw [hstoreRegistry]
      exact keyLocal_of_plain h (hschema.symm ▸ hregistry) hplain order
    have hcodec : v.schema.keyCodec = c := by rw [hschema]
    refine ⟨keys_of_scan hown, ?_, ?_⟩
    · intro e he k d hk hd
      rw [← hcodec] at hk ⊢
      refine ⟨?_, fun hnodup => h.finds_iff hstore hlocal hown hnodup he hk hd⟩
      intro hkept
      have hlookup := h.lookup_again hstore hlocal hown hk hkept hd
      refine ⟨hlookup, ?_⟩
      have hfound : (own.find? fun other => other.key == e.key).isSome = true :=
        List.find?_isSome.2 ⟨e, he, by simp⟩
      rw [containsKey_of_lookup hlookup, hfound]
    · intro e he e' he' k k' d d' hk hk' hkept hkept' hd hd'
      rw [← hcodec] at hk hk' hkept hkept'
      obtain ⟨hkey, -⟩ := decodeEntry_eq_ok hd
      obtain ⟨hkey', -⟩ := decodeEntry_eq_ok hd'
      constructor
      · intro heq
        exact hk.inj hk' hkept hkept' hkey (heq ▸ hkey')
      · intro hequal hplain hplain'
        exact hk.inj_of_equal hk' hkept hkept' hkey hkey' hequal hplain hplain'

/-- A double that is not read back exactly is found by what is read of it. -/
theorem stored_keys_tenth :
    let tenth := Float.ofBits 0xbfb999999999999a
    let bytes : Bytes := [0, 0x66, 0x7f, 0xff, 0xff, 0xff, 0xff, 0xff, 0xff, 0xff,
      0x73, 0x33, 0x33, 0x33, 0x33, 0x33, 0x34, 0]
    let store := (Store.ofLayout ⟨[], Limits.standard, none⟩ (.builtin id)).run
      [.writeBatch [.put bytes (Codec.LongWord.write 7)]]
    let v := View.base ⟨.fixedPoint, .long, Settings.standard, .builtin id⟩
    Codec.FixedPoint.encode (.float tenth) = bytes ∧ ∃ read : Float, read ≠ tenth ∧
      v.Finds store ⟨bytes, Codec.LongWord.write 7, 1⟩ ⟨.float read, .int 7, 1⟩ := by
  intro tenth bytes store v
  have hreading : Number.reading tenth = .finite true 7205759403792794 (-56) := by decide
  have hvalue : Number.valueOf tenth = -7205759403792794 * 2 ^ (-56 : ℤ) := by
    rw [Number.valueOf, hreading]
    norm_num [Number.Reading.value, Number.signed]
  have hrange : Codec.FixedPoint.InRange tenth := by
    refine ⟨by rw [Number.IsFinite, hreading]; trivial, ?_, ?_⟩ <;> rw [hvalue] <;> norm_num
  have hfar : ¬ Codec.FixedPoint.JustBelowZero tenth := by
    intro hzero
    have hlow := hzero.1
    rw [hvalue] at hlow
    norm_num at hlow
  have hwhole : Codec.FixedPoint.wholePart tenth = -1 := by decide
  have hfraction : Codec.FixedPoint.fractionPart tenth = 8301034833169298432 := by decide
  have hbytes : Codec.FixedPoint.encode (.float tenth) = bytes := by
    rw [Codec.FixedPoint.encode_float hrange, Codec.FixedPoint.encodeFloat, hwhole, hfraction]
    rfl
  have hbits : (Codec.FixedPoint.readBack tenth).toBits ≠ tenth.toBits := by decide
  refine ⟨hbytes, Codec.FixedPoint.readBack tenth, fun heq => hbits (by rw [heq]), ?_⟩
  obtain ⟨-, ⟨hscan, hnodup⟩, hviews⟩ := stored_keys id .asRead ⟨[], Limits.standard, none⟩
    [.writeBatch [.put bytes (Codec.LongWord.write 7)]]
    ⟨.fixedPoint, .long, Settings.standard, .builtin id⟩ rfl
  obtain ⟨-, hfinds, -⟩ := hviews [] v _ rfl (by simp [v, layers, View.base]) hscan
  have hheld : store.contents.entries KeyRange.full .latest =
      [⟨bytes, Codec.LongWord.write 7, 1⟩] := rfl
  have hdecoded : v.decodeEntry ⟨bytes, Codec.LongWord.write 7, 1⟩ =
      .ok ⟨.float (Codec.FixedPoint.readBack tenth), .int 7, 1⟩ := by
    have hkey : v.decodeKey bytes = .ok (.float (Codec.FixedPoint.readBack tenth)) := by
      rw [← hbytes]
      exact mapError_eq_ok.2 (Codec.FixedPoint.decode_encode_float hrange)
    rw [decodeEntry, hkey]
    rfl
  have hkey : Codec.fixedPoint.Encodes (.float tenth) bytes :=
    ⟨trivial, trivial, congrArg Except.ok hbytes⟩
  refine ((hfinds _ ?_ (.float tenth) _ hkey hdecoded).2 hnodup).2 hfar
  exact hheld ▸ List.mem_singleton_self _

/-- A double just below zero is not found by the zero that is read of it, and a stored zero is read
as the same key. -/
theorem lost_key_not_found :
    let tiny := Float.ofBits 0xbbc79ca10c924223
    let zero := Codec.FixedPoint.encode (.float 0)
    let store := (Store.ofLayout ⟨[], Limits.standard, none⟩ (.builtin id)).run
      [.writeBatch [.put Codec.FixedPoint.lost (Codec.LongWord.write 7)]]
    let v := View.base ⟨.fixedPoint, .long, Settings.standard, .builtin id⟩
    Codec.fixedPoint.encode (.float tiny) = .ok Codec.FixedPoint.lost ∧
      Codec.fixedPoint.decode Codec.FixedPoint.lost = .ok (.float 0) ∧
      Codec.fixedPoint.encode (.float 0) = .ok zero ∧ zero ≠ Codec.FixedPoint.lost ∧
      Codec.fixedPoint.decode zero = .ok (.float 0) ∧
      v.keys store = .ok [.ok (.float 0)] ∧
      v.containsKey store (.float 0) = .ok false ∧ v.get store (.float 0) = .ok none := by
  intro tiny zero store v
  have hreading : Number.reading tiny = .finite true 6646139978924579 (-119) := by decide
  have hzero : Codec.FixedPoint.JustBelowZero tiny := by
    have hvalue : Number.valueOf tiny = -6646139978924579 * 2 ^ (-119 : ℤ) := by
      rw [Number.valueOf, hreading]
      norm_num [Number.Reading.value, Number.signed]
    rw [Codec.FixedPoint.JustBelowZero, hvalue]
    norm_num
  have hdecode : Codec.fixedPoint.decode Codec.FixedPoint.lost = .ok (.float 0) := by
    rw [← hzero.encode_eq, ← hzero.readBack_eq]
    exact Codec.FixedPoint.decode_encode_float hzero.inRange
  have hstore : store.Sound := Store.sound_run _ _ _
  have hheld : store.contents.entries KeyRange.full .latest =
      [⟨Codec.FixedPoint.lost, Codec.LongWord.write 7, 1⟩] := rfl
  have hscan : v.scan store none .latest =
      .ok ([⟨Codec.FixedPoint.lost, Codec.LongWord.write 7, 1⟩].map .ok) := by
    rw [← hheld]
    exact scan_base hstore _
  have hlookup : v.lookup store (.float 0) = .ok none := by
    have hkey : v.encodeKey (.float 0) = .ok zero := rfl
    rw [(Sound.base _).lookup_eq hstore (by simp [settings, layers, View.base]) hscan hkey]
    rw [List.find?_cons, beq_false_of_ne Codec.FixedPoint.encode_zero_ne_lost.symm]
    rfl
  refine ⟨congrArg Except.ok hzero.encode_eq, hdecode, rfl,
    Codec.FixedPoint.encode_zero_ne_lost, Codec.FixedPoint.decode_encode_zero, ?_, ?_, ?_⟩
  · rw [keys_of_scan hscan]
    have hkey : v.decodeKey Codec.FixedPoint.lost = .ok (.float 0) := mapError_eq_ok.2 hdecode
    rw [List.map_singleton, decodeEntry, hkey]
    rfl
  · exact containsKey_of_lookup hlookup
  · exact get_of_lookup hlookup

end View

end Strata
