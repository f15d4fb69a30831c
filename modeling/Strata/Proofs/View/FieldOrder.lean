/-
**A view that is read twice.**

Every scan decodes the keys that it copies for itself, so two scans of a view that is not changed in
between can differ in the order in which copied keys are written.  They differ in nothing else: if
the first does not fail then neither does the second, entry for entry they are the same up to that
order, and so are the values that are decoded of them.

* `Store.inOrder` — a store, asked when fields come in some order;
* `Store.exists_scan_inOrder`, `View.Sound.exists_scan_inOrder` — **scans in two orders**;
* `Codec.readSummary_of_legible` — no object is read as a summary;
* `View.DecodedEntry.SameUpToOrder`, `View.exists_decodeEntry` — **what is decoded**.
-/

import Strata.Proofs.Operator.FieldOrder
import Strata.Proofs.Store.Scan
import Strata.Proofs.View.Derived

set_option relaxedAutoImplicit false
set_option autoImplicit false

namespace Strata

variable {digest : Bytes → Bytes} {order again : FieldOrder} {store : Store} {found : List Entry}

/-! ### Scans of a store -/

namespace Store

/-- The store, asked when the fields of the keys that it reads come in some order. -/
def inOrder (store : Store) (digest : Bytes → Bytes) (order : FieldOrder) : Store :=
  { store with registry := .builtin digest order }

theorem inOrder_self (h : store.registry = .builtin digest order) :
    store.inOrder digest order = store := by
  rw [inOrder, ← h]

theorem Sound.inOrder (h : store.Sound) (digest : Bytes → Bytes) (order : FieldOrder) :
    (store.inOrder digest order).Sound := ⟨h.tiles, h.placed, h.chains⟩

/-- A visit of a partition, in another order, makes the same of it. -/
theorem exists_visit {scanner : Scanner} {index : Nat} (h : store.registry = .builtin digest order)
    (again : FieldOrder) (hvisit : Stream.visit store scanner index = .ok found) :
    ∃ found' : List Entry,
      Stream.visit (store.inOrder digest again) scanner index = .ok found' ∧
      List.Forall₂ Entry.SameUpToOrder found found' := by
  rw [Stream.visit] at hvisit ⊢
  rw [show (store.inOrder digest again).partitions = store.partitions from rfl]
  split at hvisit
  · next p hp =>
    obtain ⟨hruns, hrun⟩ := streamPartition_eq_ok_iff.1 hvisit
    rw [h] at hrun
    obtain ⟨found', hrun', hsame⟩ :=
      alike_runOperators digest order again _ (Entry.SameUpToOrder.refl_all _) hrun
    exact ⟨found', streamPartition_eq_ok_iff.2 ⟨hruns, hrun'⟩, hsame⟩
  · obtain rfl := Except.ok.inj hvisit
    exact ⟨[], rfl, .nil⟩

theorem exists_drainPending {scanner : Scanner} (h : store.registry = .builtin digest order)
    (again : FieldOrder) {pending : List Nat}
    (hscan : Stream.drainPending store scanner pending = found.map .ok) :
    ∃ found' : List Entry,
      Stream.drainPending (store.inOrder digest again) scanner pending = found'.map .ok ∧
      List.Forall₂ Entry.SameUpToOrder found found' := by
  induction pending generalizing found with
  | nil =>
      obtain rfl : found = [] := List.map_eq_nil_iff.1 hscan.symm
      exact ⟨[], rfl, .nil⟩
  | cons index pending ih =>
      rw [Stream.drainPending] at hscan ⊢
      split at hscan
      · next e _ =>
        -- what begins with a fault is no list of entries
        cases found with
        | nil => cases hscan
        | cons e found => cases (List.cons.inj hscan).1
      · next entries hvisit =>
        obtain ⟨front, rest, rfl, hfront, hrest⟩ := List.map_eq_append_iff.1 hscan.symm
        obtain rfl := map_ok_injective hfront
        obtain ⟨front', hvisit', hsame⟩ := exists_visit h again hvisit
        obtain ⟨rest', hrest', hsames⟩ := ih hrest.symm
        refine ⟨front' ++ rest', ?_, List.rel_append hsame hsames⟩
        simp only [hvisit', hrest', List.map_append]

/-- **A second scan returns the same** up to the order of fields, and fails nowhere either. -/
theorem exists_scan_inOrder {scanner : Scanner} (h : store.registry = .builtin digest order)
    (again : FieldOrder) (hscan : store.scan scanner = found.map .ok) :
    ∃ found' : List Entry, (store.inOrder digest again).scan scanner = found'.map .ok ∧
      List.Forall₂ Entry.SameUpToOrder found found' :=
  exists_drainPending h again hscan

end Store

/-! ### Scans of a view -/

namespace View

variable {v : View} {mode : ScanMode}

/-- **A second scan of a view shows the same** up to the order of fields. -/
theorem Sound.exists_scan_inOrder (h : v.Sound) (hregistry : store.registry = .builtin digest order)
    (again : FieldOrder) (hscan : v.scan store none mode = .ok (found.map .ok)) :
    ∃ found' : List Entry,
      v.scan (store.inOrder digest again) none mode = .ok (found'.map .ok) ∧
      Reread order again found found' := by
  obtain ⟨found', hscan', hsame⟩ : ∃ found' : List Entry,
      v.scan (store.inOrder digest again) none mode = .ok (found'.map .ok) ∧
      List.Forall₂ Entry.SameUpToOrder found found' := by
    by_cases hempty : v.kind = .empty
    · rw [h.scan_of_empty hempty] at hscan ⊢
      obtain rfl : found = [] := List.map_eq_nil_iff.1 (Except.ok.inj hscan).symm
      exact ⟨[], rfl, .nil⟩
    · rw [h.scan_eq hempty] at hscan ⊢
      obtain ⟨found', hfound', hsame⟩ := Store.exists_scan_inOrder hregistry again
        (eq_map_ok_of_map_ofItem (Except.ok.inj hscan))
      exact ⟨found', by rw [hfound', map_ofItem_ok], hsame⟩
  refine ⟨found', hscan', hsame, ?_⟩
  rintro rfl
  rw [Store.inOrder_self hregistry, hscan] at hscan'
  exact (map_ok_injective (Except.ok.inj hscan')).symm

end View

/-! ### What is decoded -/

namespace Codec

open MessagePack

/-- No object is read as a summary. -/
theorem readSummary_of_legible {c : Codec} {v : Value} {bytes : Bytes} (h : Legible v)
    (hencode : c.encode v = .ok bytes) : readSummary bytes = .error (.codec .malformed) := by
  cases c with
  | long =>
      obtain ⟨n, hn, -⟩ := LongWord.encode_eq_ok hencode
      rcases h.holds.cases with ⟨item, items, rfl⟩ | ⟨fields, rfl⟩ <;> cases hn
  | packed =>
      obtain rfl : pack v = bytes := Except.ok.inj hencode
      have hread := Doc.read?_write (fits_toDoc v h.fits) []
      rw [List.append_nil] at hread
      rw [readSummary, pack, hread]
      rcases h.holds.cases with ⟨item, items, rfl⟩ | ⟨fields, rfl⟩ <;> rfl
  | fixedPoint =>
      obtain rfl : FixedPoint.encode v = bytes := Except.ok.inj hencode
      rw [FixedPoint.encode_of_holdsFields h.holds]
      rfl

end Codec

/-- **What is decoded of a value is the same** up to the order of fields, however it is read. -/
theorem Entry.SameUpToOrder.decode_reading {e e' : Entry} (h : e.SameUpToOrder e')
    {format : ValueReading} {v : Value} (hread : format.decode e.value = .ok v) :
    ∃ v', format.decode e'.value = .ok v' ∧ v.Rearranged v' := by
  cases format with
  | coded codec =>
      obtain ⟨v', hv', hsame⟩ := h.decode (mapError_eq_ok.1 hread)
      exact ⟨v', mapError_eq_ok.2 hv', hsame⟩
  | summary =>
      rcases h.value with heq | ⟨keyCodec, outputCodec, key, hkey, -, hone, hother⟩
      · exact ⟨v, heq ▸ hread, .refl⟩
      · rcases hone.eq_or hkey hother with heq | ⟨w, -, -, hw, -, hencode, -⟩
        · exact ⟨v, heq ▸ hread, .refl⟩
        · -- a copy with an object in it is not read at all
          rw [ValueReading.decode, Codec.readSummary_of_legible hw hencode] at hread
          cases hread

namespace View

/-- One entry, decoded twice: the values are the same up to the order of fields. -/
structure DecodedEntry.SameUpToOrder (d d' : DecodedEntry) : Prop where
  key : d'.key = d.key
  timestamp : d'.timestamp = d.timestamp
  value : d.value.Rearranged d'.value

theorem exists_decodeEntry_again {v : View} {e e' : Entry} {d : DecodedEntry}
    (h : e.SameUpToOrder e') (hd : v.decodeEntry e = .ok d) :
    ∃ d', v.decodeEntry e' = .ok d' ∧ d.SameUpToOrder d' := by
  obtain ⟨key, hkey, hd⟩ := bind_eq_ok.1 hd
  obtain ⟨value, hvalue, hd⟩ := bind_eq_ok.1 hd
  obtain rfl := Except.ok.inj hd
  obtain ⟨value', hvalue', hsame⟩ := h.decode_reading hvalue
  refine ⟨⟨key, value', e.timestamp⟩, ?_, rfl, rfl, hsame⟩
  rw [decodeEntry, h.key, hkey, decodeValue, hvalue', h.timestamp]
  rfl

end View

end Strata
