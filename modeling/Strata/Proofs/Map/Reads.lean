/-
**Reads of a map.**

The map itself shows what its store holds, without any operator in between.  So what a read of it
returns can be told from the versions of every key and from the list of its keys: a read of a key
looks at the versions of that key, the ends are the ends of the list, and iteration goes through the
keys of the list with their versions.  Whatever is read is decoded, and nothing else can fail.

* `Store.entries_exact` — the entries of one key;
* `View.scan_base_range`, `View.lookup_base` — scans of a range, and the first entry of a key;
* `View.get_base`, `View.getAll_base`, `View.containsKey_base` — **reads of a key**;
* `View.firstKey_base`, `View.lastKey_base`, `View.isEmpty_base` — the ends;
* `View.entries_base`, `View.multiEntries_base` — iteration.
-/

import Strata.Map.Batch
import Strata.Proofs.Store.Layouts
import Strata.Proofs.View.Fallback
import Strata.Proofs.View.StoredKeys

set_option relaxedAutoImplicit false
set_option autoImplicit false

namespace Strata

/-! ### Decoding -/

namespace Schema

/-- Decodes the bytes of a key. -/
def decodeKey (s : Schema) (bytes : Bytes) : Except MapError Value :=
  (s.keyCodec.decode bytes).mapError .decode

/-- Decodes the bytes of a value. -/
def decodeValue (s : Schema) (bytes : Bytes) : Except MapError Value :=
  (s.valueCodec.decode bytes).mapError .decode

/-- Decodes an entry, its key first. -/
def decodeEntry (s : Schema) (e : Entry) : Except MapError View.DecodedEntry := do
  let key ← s.decodeKey e.key
  let value ← s.decodeValue e.value
  return ⟨key, value, e.timestamp⟩

/-- The value of a version, if there is one. -/
def decodeVersion (s : Schema) : Option Version → Except MapError (Option Value)
  | none => .ok none
  | some version => (s.decodeValue version.value).map some

/-- The key at one end of a list of keys, if there is one. -/
def decodeEnd (s : Schema) : Option Bytes → Except MapError (Option Value)
  | none => .ok none
  | some bytes => (s.decodeKey bytes).map some

end Schema

/-! ### Entries of one key -/

theorem VersionedMap.head?_entries (map : VersionedMap) (key : Bytes) :
    (map.entries .latest key).head? =
      (map.versions key).head?.map fun v => ⟨key, v.value, v.timestamp⟩ := by
  simp only [entries, List.head?_map, List.head?_take, Nat.one_ne_zero, if_false]

namespace Store

variable {store : Store}

/-- The entries of one key are its versions. -/
theorem entries_exact (h : store.Sound) (bytes : Bytes) (mode : ScanMode) :
    store.contents.entries (KeyRange.exact bytes) mode = store.toMap.entries mode bytes := by
  obtain ⟨keys, hkeys, hentries⟩ := entries_toMap h (KeyRange.exact bytes) mode
  rw [hentries]
  by_cases hversions : store.toMap.versions bytes = []
  · -- a key without versions is not listed
    have hnone : keys = [] := by
      refine List.eq_nil_iff_forall_not_mem.2 fun key hkey => ?_
      obtain ⟨hin, hsome⟩ := (hkeys.mem_iff key).1 hkey
      rw [KeyRange.contains_exact] at hin
      exact hsome (hin ▸ hversions)
    rw [hnone]
    cases mode <;> simp [VersionedMap.entries, hversions]
  · have hone : keys = [bytes] := by
      refine hkeys.unique ⟨List.pairwise_singleton .., fun key => ?_⟩
      rw [List.mem_singleton, KeyRange.contains_exact]
      constructor
      · rintro rfl
        exact ⟨rfl, hversions⟩
      · exact fun h => h.1
    rw [hone, List.flatMap_singleton]

end Store

namespace View

variable {store : Store} {schema : Schema} {key : Value} {keys : List Bytes}

/-! ### Scans -/

/-- A scan of a range of the map returns the entries in that range. -/
theorem scan_base_range (h : store.Sound) (range : KeyRange) (mode : ScanMode) :
    (View.base schema).scan store (some range) mode =
      .ok ((store.contents.entries range mode).map .ok) := by
  have hnone : (View.base schema).settings = [] := rfl
  have hnarrow : store.contents.entries range mode =
      (store.contents.entries KeyRange.full mode).filter fun e => range.contains e.key :=
    Store.entries_narrow store.contents (fun _ => rfl) mode
  rw [(Sound.base schema).scan_part h (by simp [hnone]) (scan_base h schema), hnarrow]

/-- A read of a key finds the newest of its entries. -/
theorem lookup_base (h : store.Sound) :
    (View.base schema).lookup store key =
      (schema.encodeKey key).map fun bytes =>
        (store.toMap.versions bytes).head?.map fun v => ⟨bytes, v.value, v.timestamp⟩ := by
  show (schema.encodeKey key).bind (fun bytes =>
    (View.base schema).firstEntry store (some (KeyRange.exact bytes)) .latest) = _
  cases schema.encodeKey key with
  | error e => rfl
  | ok bytes =>
      show (View.base schema).firstEntry store (some (KeyRange.exact bytes)) .latest = _
      rw [firstEntry_eq, scan_base_range h, Store.entries_exact h]
      simp only [Except.bind, Except.map, List.head?_map, VersionedMap.head?_entries]
      cases (store.toMap.versions bytes).head? <;> rfl

/-! ### Reads of a key -/

/-- **A read of a key decodes its newest version.** -/
theorem get_base (h : store.Sound) :
    (View.base schema).get store key =
      (schema.encodeKey key).bind fun bytes =>
        schema.decodeVersion (store.toMap.versions bytes).head? := by
  cases hkey : schema.encodeKey key with
  | error e =>
      rw [get, lookup_base h, hkey]
      rfl
  | ok bytes =>
      have hlookup : (View.base schema).lookup store key =
          .ok ((store.toMap.versions bytes).head?.map fun v => ⟨bytes, v.value, v.timestamp⟩) := by
        rw [lookup_base h, hkey]
        rfl
      rw [get_of_lookup hlookup]
      show _ = schema.decodeVersion (store.toMap.versions bytes).head?
      cases (store.toMap.versions bytes).head? <;> rfl

/-- **A read of all values of a key decodes its versions**, the newest first. -/
theorem getAll_base (h : store.Sound) :
    (View.base schema).getAll store key =
      (schema.encodeKey key).bind fun bytes =>
        (store.toMap.versions bytes).mapM fun version => schema.decodeValue version.value := by
  show (schema.encodeKey key).bind (fun bytes =>
    ((View.base schema).scan store (some (KeyRange.exact bytes)) .allVersions).bind fun items =>
      items.mapM fun item => item.bind fun e => (View.base schema).decodeValue e.value) = _
  refine congrArg _ (funext fun bytes => ?_)
  rw [scan_base_range h, Store.entries_exact h]
  show (((store.toMap.entries .allVersions bytes).map Except.ok).mapM fun item =>
    item.bind fun e => (View.base schema).decodeValue e.value) = _
  rw [VersionedMap.entries, List.map_map, List.mapM_map]
  rfl

/-- A key is there when it has versions. -/
theorem containsKey_base (h : store.Sound) :
    (View.base schema).containsKey store key =
      (schema.encodeKey key).map fun bytes => !(store.toMap.versions bytes).isEmpty := by
  show ((View.base schema).lookup store key).map Option.isSome = _
  rw [lookup_base h]
  cases schema.encodeKey key with
  | error e => rfl
  | ok bytes =>
      simp only [Except.map, Option.isSome_map]
      cases store.toMap.versions bytes <;> rfl

/-! ### All keys -/

section Listed

variable (h : store.Sound) (hkeys : store.toMap.Lists KeyRange.full keys)

include h hkeys

theorem entries_listed (mode : ScanMode) : store.contents.entries KeyRange.full mode =
    keys.flatMap (store.toMap.entries mode) := by
  obtain ⟨others, hothers, hentries⟩ := Store.entries_toMap h KeyRange.full mode
  rw [hentries, hkeys.unique hothers]

/-- Every listed key has one newest entry. -/
theorem map_key_listed :
    (store.contents.entries KeyRange.full .latest).map (·.key) = keys := by
  rw [entries_listed h hkeys, List.map_flatMap]
  have hone : ∀ key ∈ keys, (store.toMap.entries .latest key).map (·.key) = [key] := by
    intro key hkey
    have hversions := ((hkeys.mem_iff key).1 hkey).2
    simp only [VersionedMap.entries]
    cases hlist : store.toMap.versions key with
    | nil => exact absurd hlist hversions
    | cons version versions => rfl
  rw [List.flatMap_congr hone]
  exact List.flatMap_pure_eq_map id keys |>.trans (List.map_id keys)

/-- The least key is the first of the list. -/
theorem firstKey_base : (View.base schema).firstKey store = schema.decodeEnd keys.head? := by
  have hfirst : (View.base schema).firstEntry store none .latest =
      .ok (store.contents.entries KeyRange.full .latest).head? := by
    rw [firstEntry_eq, scan_base h schema]
    simp only [Except.bind, List.head?_map]
    cases (store.contents.entries KeyRange.full .latest).head? <;> rfl
  show ((View.base schema).firstEntry store none .latest).bind _ = _
  rw [hfirst, ← map_key_listed h hkeys, List.head?_map]
  cases (store.contents.entries KeyRange.full .latest).head? with
  | none => rfl
  | some e =>
      show (schema.decodeKey e.key).bind _ = (schema.decodeKey e.key).map _
      cases schema.decodeKey e.key <;> rfl

/-- The greatest key is the last of the list. -/
theorem lastKey_base : (View.base schema).lastKey store = schema.decodeEnd keys.getLast? := by
  rw [lastKey, show (View.base schema).top.mode = .latest from rfl, scan_base h schema,
    ← map_key_listed h hkeys, List.getLast?_map]
  show (((store.contents.entries KeyRange.full .latest).map Except.ok).mapM id).bind _ = _
  rw [mapM_id_map_ok]
  simp only [Except.bind]
  cases (store.contents.entries KeyRange.full .latest).getLast? with
  | none => rfl
  | some e =>
      show (schema.decodeKey e.key).bind _ = (schema.decodeKey e.key).map _
      cases schema.decodeKey e.key <;> rfl

/-- A map is empty when it lists no key. -/
theorem isEmpty_base : (View.base schema).isEmpty store = .ok keys.isEmpty := by
  show ((View.base schema).firstEntry store none .latest).map Option.isNone = _
  rw [firstEntry_eq, scan_base h schema, ← map_key_listed h hkeys]
  simp only [Except.bind, List.head?_map]
  cases store.contents.entries KeyRange.full .latest <;> rfl

end Listed

/-! ### Iteration -/

/-- **Iteration decodes the newest entries.** -/
theorem entries_base (h : store.Sound) : (View.base schema).entries store =
    .ok ((store.contents.entries KeyRange.full .latest).map schema.decodeEntry) :=
  entries_of_scan (scan_base h schema)

/-- Iteration over all versions decodes all entries. -/
theorem multiEntries_base (h : store.Sound) : (View.base schema).multiEntries store =
    .ok ((store.contents.entries KeyRange.full .allVersions).map schema.decodeEntry) :=
  multiEntries_of_scan (scan_base h schema)

end View

end Strata
