/-
**A finite map from keys to values.**

What a map is asked can be told of a finite map: of the bytes of its keys in ascending order, and of
the versions of every key, the newest first.  A write puts a version in front of those of its key
and cuts off what is not kept; a removal drops a key with all its versions; what cannot be encoded,
or breaks a limit, leaves the finite map as it is.  Nothing here knows of stores, partitions,
operators or scans.

* `FiniteMap`, `FiniteMap.apply` — the finite map and one mutation of it;
* `FiniteMap.call`, `FiniteMap.run` — what is asked of it;
* `FiniteMap.newest`, `FiniteMap.all`, `FiniteMap.shown` — what is read of it;
* `FiniteMap.Puts`, `FiniteMap.Drops` — one version more, and one key less;
* `FiniteMap.call_of_failed`, `FiniteMap.call_put`, `FiniteMap.call_remove`,
  `FiniteMap.call_clear` — **what single calls do**.
-/

import Strata.Proofs.Map.Calls
import Strata.Proofs.Map.Reads

set_option relaxedAutoImplicit false
set_option autoImplicit false

namespace Strata

/-! ### Listed keys -/

namespace VersionedMap

variable {map : VersionedMap} {keys : List Bytes}

/-- At least the newest version is kept. -/
theorem cut_cons_ne_nil (retention : Option Nat) (v : Version) (versions : List Version) :
    cut retention (v :: versions) ≠ [] := by
  cases retention with
  | none => exact List.cons_ne_nil _ _
  | some n =>
      obtain ⟨m, hm⟩ : ∃ m, max 1 n = m + 1 := ⟨max 1 n - 1, by omega⟩
      rw [cut, hm, List.take_succ_cons]
      exact List.cons_ne_nil _ _

theorem Lists.empty (retention : Option Nat) :
    (VersionedMap.empty retention).Lists KeyRange.full [] where
  ascending := List.Pairwise.nil
  mem_iff _ := by simp [VersionedMap.empty]

theorem Lists.put (h : map.Lists KeyRange.full keys) (key value : Bytes) :
    (map.apply (.put key value)).Lists KeyRange.full (sortKeys.insert key keys) where
  ascending := sorted_insert_sortKeys h.ascending
  mem_iff k := by
    rw [mem_insert_sortKeys, h.mem_iff]
    simp only [VersionedMap.apply, Function.update_apply]
    by_cases heq : k = key
    · simp [heq, cut_cons_ne_nil]
    · simp [heq]

theorem Lists.delete (h : map.Lists KeyRange.full keys) (key : Bytes) :
    (map.apply (.delete key)).Lists KeyRange.full (keys.filter (· != key)) where
  ascending := h.ascending.filter _
  mem_iff k := by
    rw [List.mem_filter, h.mem_iff]
    simp only [VersionedMap.apply, Function.update_apply]
    by_cases heq : k = key <;> simp [heq]

/-- Keys that are removed one after another have no versions then. -/
theorem versions_foldl_delete (map : VersionedMap) (keys : List Bytes) :
    (keys.map Mutation.delete).foldl VersionedMap.apply map =
      { map with versions := fun key => if key ∈ keys then [] else map.versions key } := by
  induction keys generalizing map with
  | nil => simp
  | cons first keys ih =>
      rw [List.map_cons, List.foldl_cons, ih]
      simp only [VersionedMap.apply, Function.update_apply, List.mem_cons]
      congr 1
      funext key
      by_cases hfirst : key = first <;> simp [hfirst]

end VersionedMap

/-! ### The finite map -/

namespace MapAnswer

/-- Answers with what was found before a write. -/
def found (previous : Option Value) (outcome : Except MapError Unit) : MapAnswer :=
  .previous (outcome.map fun _ => previous)

/-- The call was carried out. -/
def isOk : MapAnswer → Bool
  | done outcome => outcome.isOk
  | previous outcome => outcome.isOk
  | imported outcome => outcome.isOk
  | batched _ outcome => outcome.isOk

end MapAnswer

/-- The versions of every key, with the list of the keys that have any. -/
structure FiniteMap extends VersionedMap where
  keys : List Bytes
  listed : toVersionedMap.Lists KeyRange.full keys

namespace FiniteMap

/-- No keys. -/
def empty (retention : Option Nat) : FiniteMap :=
  ⟨VersionedMap.empty retention, [], VersionedMap.Lists.empty retention⟩

/-- Applies one mutation. -/
def apply (map : FiniteMap) : Mutation → FiniteMap
  | .put key value =>
    ⟨map.toVersionedMap.apply (.put key value), sortKeys.insert key map.keys,
      map.listed.put key value⟩
  | .delete key =>
    ⟨map.toVersionedMap.apply (.delete key), map.keys.filter (· != key), map.listed.delete key⟩

/-- The finite map without its keys. -/
def cleared (map : FiniteMap) : FiniteMap where
  versions _ := []
  retention := map.retention
  clock := map.clock
  keys := []
  listed := ⟨List.Pairwise.nil, by simp⟩

/-! ### Reads -/

variable (s : Schema)

/-- The newest value of a key. -/
def newest (map : FiniteMap) (key : Value) : Except MapError (Option Value) :=
  (s.encodeKey key).bind fun bytes => s.decodeVersion (map.versions bytes).head?

/-- All values of a key, the newest first. -/
def all (map : FiniteMap) (key : Value) : Except MapError (List Value) :=
  (s.encodeKey key).bind fun bytes => (map.versions bytes).mapM fun v => s.decodeValue v.value

/-- The keys in order, each with its newest version or with all of them. -/
def shown (map : FiniteMap) (mode : ScanMode) : List (Except MapError View.DecodedEntry) :=
  (map.keys.flatMap (map.entries mode)).map s.decodeEntry

/-! ### Calls -/

variable (limits : Limits)

/-- Applies mutations, all or none: none if one of them could not be made, or if they break a
limit. -/
def write (map : FiniteMap) : Except MapError (List Mutation) → Except MapError Unit × FiniteMap
  | .error e => (.error e, map)
  | .ok batch =>
    match limits.checkBatch batch with
    | .error violation => (.error (.writeRejected violation.message), map)
    | .ok () => (.ok (), batch.foldl apply map)

/-- What a call answers, and what it makes of the finite map. -/
def call (map : FiniteMap) : MapCall → MapAnswer × FiniteMap
  | .put key value =>
    match map.newest s key with
    | .error e => (.previous (.error e), map)
    | .ok previous =>
      (map.write limits ((s.putMutation key value).map ([·]))).map (MapAnswer.found previous) id
  | .putWithoutGet key value =>
    (map.write limits ((s.putMutation key value).map ([·]))).map .done id
  | .remove key =>
    match map.newest s key with
    | .error e => (.previous (.error e), map)
    | .ok none => (.previous (.ok none), map)
    | .ok (some value) =>
      (map.write limits ((s.removeMutation key).map ([·]))).map (MapAnswer.found (some value)) id
  | .putAll pairs => (map.write limits (Container.mutationsOf s id pairs)).map .done id
  | .importAll change pairs =>
    (map.write limits (Container.mutationsOf s change pairs)).map
      (fun outcome => .imported (outcome.map fun _ => (Checksum.ofPairs pairs).packed)) id
  | .clear =>
    match limits.checkBatch (map.keys.map .delete) with
    | .error violation => (.done (.error (.writeRejected violation.message)), map)
    | .ok () => (.done (.ok ()), map.cleared)
  | .batch items sent =>
    let answers := items.map fun item => (item.mutation s).map fun _ => ()
    if sent then
      (map.write limits (.ok (items.filterMap fun item => (item.mutation s).toOption))).map
        (.batched answers) id
    else (.batched answers (.ok ()), map)

/-- What calls answer, one after the other, and what they make of the finite map. -/
def run (map : FiniteMap) : List MapCall → List MapAnswer × FiniteMap
  | [] => ([], map)
  | call :: calls =>
    let (answer, next) := map.call s limits call
    let (answers, last) := next.run calls
    (answer :: answers, last)

/-! ### Single calls -/

variable {s limits} {map : FiniteMap} {key value : Value} {previous : Option Value}
  {mutations : Except MapError (List Mutation)}

theorem write_of_failed (h : (map.write limits mutations).1.isOk = false) :
    (map.write limits mutations).2 = map := by
  cases mutations with
  | error e => rfl
  | ok batch =>
      rw [write] at h ⊢
      cases hcheck : limits.checkBatch batch with
      | error violation => rfl
      | ok =>
          rw [hcheck] at h
          cases h

theorem write_eq_ok (h : (map.write limits mutations).1 = .ok ()) :
    ∃ batch, mutations = .ok batch ∧ (map.write limits mutations).2 = batch.foldl apply map := by
  cases mutations with
  | error e => cases h
  | ok batch =>
      refine ⟨batch, rfl, ?_⟩
      rw [write] at h ⊢
      cases hcheck : limits.checkBatch batch with
      | error violation =>
          rw [hcheck] at h
          cases h
      | ok => rfl

theorem isOk_map {α β ε : Type} (x : Except ε α) (f : α → β) : (x.map f).isOk = x.isOk := by
  cases x <;> rfl

/-- **A call that fails changes nothing.** -/
theorem call_of_failed (c : MapCall) (h : (map.call s limits c).1.isOk = false) :
    (map.call s limits c).2 = map := by
  cases c with
  | put key value =>
      simp only [call] at h ⊢
      cases hnewest : map.newest s key with
      | error e => rfl
      | ok previous =>
          rw [hnewest] at h
          exact write_of_failed ((isOk_map _ fun _ => previous).symm.trans h)
  | putWithoutGet key value => exact write_of_failed h
  | remove key =>
      simp only [call] at h ⊢
      cases hnewest : map.newest s key with
      | error e => rfl
      | ok previous =>
          rw [hnewest] at h
          cases previous with
          | none => rfl
          | some value => exact write_of_failed ((isOk_map _ fun _ => some value).symm.trans h)
  | putAll pairs => exact write_of_failed h
  | importAll change pairs => exact write_of_failed ((isOk_map _ _).symm.trans h)
  | clear =>
      simp only [call] at h ⊢
      cases hcheck : limits.checkBatch (map.keys.map .delete) with
      | error violation => rfl
      | ok =>
          rw [hcheck] at h
          cases h
  | batch items sent =>
      cases sent with
      | false => rfl
      | true =>
          show (map.write limits (.ok _)).2 = map
          exact write_of_failed h

/-- One version is written in front of those of a key, and no other key changes. -/
def Puts (s : Schema) (map next : FiniteMap) (key value : Value) : Prop :=
  ∃ bytes stored, s.encodeKey key = .ok bytes ∧ s.encodeValue value = .ok stored ∧
    ∀ other, next.versions other =
      if other = bytes then
        VersionedMap.cut map.retention (⟨stored, map.clock + 1⟩ :: map.versions bytes)
      else map.versions other

/-- A key has no versions any more, and no other key changes. -/
def Drops (s : Schema) (map next : FiniteMap) (key : Value) : Prop :=
  ∃ bytes, s.encodeKey key = .ok bytes ∧
    ∀ other, next.versions other = if other = bytes then [] else map.versions other

theorem write_put (h : (map.write limits ((s.putMutation key value).map ([·]))).1 = .ok ()) :
    Puts s map (map.write limits ((s.putMutation key value).map ([·]))).2 key value := by
  obtain ⟨batch, hbatch, hnext⟩ := write_eq_ok h
  rw [hnext]
  cases hm : s.putMutation key value with
  | error e => simp [hm, Except.map] at hbatch
  | ok m =>
      obtain rfl : [m] = batch := by simpa [hm, Except.map] using hbatch
      obtain ⟨bytes, hkey, hm⟩ := bind_eq_ok.1 hm
      obtain ⟨stored, hvalue, hm⟩ := bind_eq_ok.1 hm
      obtain rfl := Except.ok.inj hm
      exact ⟨bytes, stored, hkey, hvalue, fun other => Function.update_apply ..⟩

theorem map_const_eq_ok {α ε : Type} {outcome : Except ε Unit} {a b : α}
    (h : (outcome.map fun _ => a) = .ok b) : outcome = .ok () ∧ a = b := by
  cases outcome with
  | error e => cases h
  | ok => exact ⟨rfl, Except.ok.inj h⟩

/-- **A put** answers with the newest value and writes one version. -/
theorem call_put (h : (map.call s limits (.put key value)).1 = .previous (.ok previous)) :
    map.newest s key = .ok previous ∧
      Puts s map (map.call s limits (.put key value)).2 key value := by
  simp only [call] at h ⊢
  cases hnewest : map.newest s key with
  | error e =>
      rw [hnewest] at h
      cases h
  | ok before =>
      rw [hnewest] at h
      obtain ⟨hwrite, rfl⟩ := map_const_eq_ok (MapAnswer.previous.inj h)
      exact ⟨rfl, write_put hwrite⟩

/-- **A removal** answers with the newest value and leaves no version of its key. -/
theorem call_remove (h : (map.call s limits (.remove key)).1 = .previous (.ok previous)) :
    map.newest s key = .ok previous ∧
      Drops s map (map.call s limits (.remove key)).2 key := by
  simp only [call] at h ⊢
  cases hnewest : map.newest s key with
  | error e =>
      rw [hnewest] at h
      cases h
  | ok before =>
      obtain ⟨bytes, hkey, hversion⟩ := bind_eq_ok.1 hnewest
      rw [hnewest] at h
      cases before with
      | none =>
          -- a key without a newest value has no versions to drop
          obtain rfl := Except.ok.inj (MapAnswer.previous.inj h)
          have hnone : map.versions bytes = [] := by
            cases hversions : map.versions bytes with
            | nil => rfl
            | cons v versions =>
                rw [hversions] at hversion
                obtain ⟨w, -, hw⟩ := bind_eq_ok.1 hversion
                cases hw
          refine ⟨rfl, bytes, hkey, fun other => ?_⟩
          by_cases heq : other = bytes
          · simp [heq, hnone]
          · simp [heq]
      | some found =>
          obtain ⟨hwrite, rfl⟩ := map_const_eq_ok (MapAnswer.previous.inj h)
          refine ⟨rfl, bytes, hkey, fun other => ?_⟩
          obtain ⟨batch, hbatch, hnext⟩ := write_eq_ok hwrite
          obtain rfl : [.delete bytes] = batch := by
            simpa [Schema.removeMutation, hkey, Except.map] using hbatch
          show (map.write limits ((s.removeMutation key).map ([·]))).2.versions other = _
          rw [hnext]
          exact Function.update_apply ..

/-- **Clearing** leaves nothing. -/
theorem call_clear (h : (map.call s limits .clear).1 = .done (.ok ())) :
    (map.call s limits .clear).2 = map.cleared := by
  simp only [call] at h ⊢
  cases hcheck : limits.checkBatch (map.keys.map .delete) with
  | error violation =>
      rw [hcheck] at h
      cases h
  | ok => rfl

/-! ### How many versions are kept -/

theorem retention_foldl_apply (map : FiniteMap) (batch : List Mutation) :
    (batch.foldl apply map).retention = map.retention := by
  induction batch generalizing map with
  | nil => rfl
  | cons m batch ih =>
      rw [List.foldl_cons, ih]
      cases m <;> rfl

theorem retention_write (mutations : Except MapError (List Mutation)) :
    (map.write limits mutations).2.retention = map.retention := by
  cases mutations with
  | error e => rfl
  | ok batch =>
      rw [write]
      cases limits.checkBatch batch with
      | error violation => rfl
      | ok => exact map.retention_foldl_apply batch

theorem retention_call (c : MapCall) :
    (map.call s limits c).2.retention = map.retention := by
  cases c with
  | put key value =>
      rw [call]
      cases map.newest s key with
      | error e => rfl
      | ok previous => exact retention_write _
  | remove key =>
      rw [call]
      cases map.newest s key with
      | error e => rfl
      | ok previous =>
          cases previous with
          | none => rfl
          | some value => exact retention_write _
  | putWithoutGet key value => exact retention_write _
  | putAll pairs => exact retention_write _
  | importAll change pairs => exact retention_write _
  | clear =>
      rw [call]
      cases limits.checkBatch (map.keys.map .delete) <;> rfl
  | batch items sent =>
      cases sent with
      | false => rfl
      | true =>
          show (map.write limits (.ok _)).2.retention = _
          exact retention_write _

/-- No call changes how many versions are kept. -/
theorem retention_run (calls : List MapCall) :
    (map.run s limits calls).2.retention = map.retention := by
  induction calls generalizing map with
  | nil => rfl
  | cons call calls ih => exact ih.trans (retention_call call)

end FiniteMap

end Strata
