/-
**Sorted rows.**

Rows are sorted when their keys are strictly ascending; a key has then one row at most.  A change of
one key keeps rows sorted, is seen by a look-up of that key alone, and leaves rows that lie before
or behind the key where they are.

* `Rows.Sorted` — strictly ascending keys;
* `Rows.lookup_update`, `Rows.lookup_erase`, `Rows.lookup_retain` — what a look-up finds after a
  change;
* `Rows.update_append_right`, `Rows.update_append_left` — a change among other rows.
-/

import Strata.Proofs.KeyRange
import Strata.Store.Partition

set_option relaxedAutoImplicit false
set_option autoImplicit false

namespace Strata

/-! ### Sorted rows -/

namespace Rows

variable {rows front back : Rows} {key : Bytes} {row : Bytes × VersionChain}
  {change : Option VersionChain → VersionChain}

/-- The keys are strictly ascending. -/
def Sorted (rows : Rows) : Prop := rows.Pairwise fun a b => a.1 < b.1

theorem lookup_cons (row : Bytes × VersionChain) (rows : Rows) (key : Bytes) :
    List.lookup key (row :: rows) = if key = row.1 then some row.2 else rows.lookup key := by
  rw [List.lookup_cons]
  by_cases h : key = row.1
  · simp [h]
  · have hbeq : (key == row.1) = false := beq_eq_false_iff_ne.2 h
    simp [hbeq, h]

theorem lookup_eq_none (h : ∀ row ∈ rows, key ≠ row.1) : rows.lookup key = none := by
  rw [List.lookup_eq_none_iff]
  intro row hrow
  simpa using h row hrow

/-- In sorted rows a look-up finds exactly the row of the key. -/
theorem lookup_eq_some_iff (h : rows.Sorted) {chain : VersionChain} :
    rows.lookup key = some chain ↔ (key, chain) ∈ rows := by
  induction rows with
  | nil => simp
  | cons row rows ih =>
      obtain ⟨hrow, hrows⟩ := List.pairwise_cons.1 h
      rw [lookup_cons, List.mem_cons]
      split
      · next heq =>
        constructor
        · intro hsome
          exact Or.inl (Prod.ext heq (Option.some_inj.1 hsome).symm)
        · rintro (rfl | hmem)
          · rfl
          · exact absurd (hrow _ hmem) (by simp [heq])
      · next hne =>
        rw [ih hrows]
        constructor
        · exact Or.inr
        · rintro (rfl | hmem)
          · exact absurd rfl hne
          · exact hmem

/-- **An update changes the versions of its key and no other.** -/
theorem lookup_update (h : rows.Sorted) (k : Bytes) :
    (update key change rows).lookup k =
      if k = key then some (change (rows.lookup key)) else rows.lookup k := by
  induction rows with
  | nil => rw [update, lookup_cons]; rfl
  | cons row rows ih =>
      obtain ⟨hrow, hrows⟩ := List.pairwise_cons.1 h
      rw [update, lookup_cons, lookup_cons]
      split
      · next hlt =>
        have hne : key ≠ row.1 := by order
        rw [lookup_cons, ih hrows, if_neg hne]
        split <;> grind
      · next hge =>
        split
        · next heq =>
          subst heq
          rw [lookup_cons]
          split <;> simp_all
        · next hne =>
          -- the key stands before every row, so it has no versions yet
          have hnone : rows.lookup key = none := by
            refine lookup_eq_none ?_
            intro other hother
            have := hrow other hother
            order
          rw [lookup_cons, lookup_cons, hnone, if_neg (Ne.symm hne)]

/-- Erasing a key removes its versions and no other. -/
theorem lookup_erase (h : rows.Sorted) (k : Bytes) :
    (erase key rows).lookup k = if k = key then none else rows.lookup k := by
  induction rows with
  | nil => simp [erase]
  | cons row rows ih =>
      obtain ⟨hrow, hrows⟩ := List.pairwise_cons.1 h
      rw [erase, lookup_cons]
      split
      · next heq =>
        have hnone : rows.lookup key = none :=
          lookup_eq_none fun other hother => by have := hrow other hother; order
        by_cases hk : k = key
        · rw [if_pos hk, hk, hnone]
        · rw [if_neg hk, if_neg (heq ▸ hk)]
      · next hne =>
        rw [lookup_cons, ih hrows]
        split <;> grind

theorem lookup_retain (retention : Option Nat) (k : Bytes) :
    (retain retention rows).lookup k = (rows.lookup k).map fun chain => chain.retain retention := by
  induction rows with
  | nil => rfl
  | cons row rows ih =>
      rw [retain, List.map_cons, lookup_cons, lookup_cons, ← retain, ih]
      split <;> rfl

/-- Every row after an update is the updated one or was there before. -/
theorem mem_update (h : row ∈ update key change rows) :
    (∃ chain, row = (key, change chain) ∧ ∀ c ∈ chain, (key, c) ∈ rows) ∨ row ∈ rows := by
  induction rows with
  | nil => exact Or.inl ⟨none, by simpa [update] using h, by simp⟩
  | cons first rows ih =>
      rw [update] at h
      split at h
      · rcases List.mem_cons.1 h with rfl | h
        · exact Or.inr (List.mem_cons_self ..)
        · rcases ih h with ⟨chain, hrow, hchain⟩ | hmem
          · exact Or.inl ⟨chain, hrow, fun c hc => List.mem_cons_of_mem _ (hchain c hc)⟩
          · exact Or.inr (List.mem_cons_of_mem _ hmem)
      · split at h
        · next heq =>
          rcases List.mem_cons.1 h with rfl | h
          · refine Or.inl ⟨some first.2, rfl, ?_⟩
            rintro c ⟨⟩
            exact List.mem_cons.2 (Or.inl (Prod.ext heq.symm rfl))
          · exact Or.inr (List.mem_cons_of_mem _ h)
        · rcases List.mem_cons.1 h with rfl | h
          · exact Or.inl ⟨none, rfl, by simp⟩
          · exact Or.inr h

theorem mem_of_mem_erase (h : row ∈ erase key rows) : row ∈ rows := by
  induction rows with
  | nil => simp [erase] at h
  | cons first rows ih =>
      rw [erase] at h
      split at h
      · exact List.mem_cons_of_mem _ h
      · rcases List.mem_cons.1 h with rfl | h
        · exact List.mem_cons_self ..
        · exact List.mem_cons_of_mem _ (ih h)

theorem Sorted.update (h : rows.Sorted) : (rows.update key change).Sorted := by
  induction rows with
  | nil => exact List.pairwise_singleton ..
  | cons first rows ih =>
      obtain ⟨hfirst, hrows⟩ := List.pairwise_cons.1 h
      rw [Rows.update]
      split
      · next hlt =>
        refine List.pairwise_cons.2 ⟨?_, ih hrows⟩
        intro row hrow
        rcases mem_update hrow with ⟨chain, rfl, -⟩ | hmem
        · exact hlt
        · exact hfirst row hmem
      · split
        · next heq =>
          refine List.pairwise_cons.2 ⟨?_, hrows⟩
          intro row hrow
          rw [← heq]
          exact hfirst row hrow
        · next hge hne =>
          have hlt : key < first.1 := by order
          refine List.pairwise_cons.2 ⟨?_, h⟩
          intro row hrow
          rcases List.mem_cons.1 hrow with rfl | hrow
          · exact hlt
          · exact hlt.trans (hfirst row hrow)

theorem Sorted.erase (h : rows.Sorted) : (rows.erase key).Sorted := by
  induction rows with
  | nil => exact List.Pairwise.nil
  | cons first rows ih =>
      obtain ⟨hfirst, hrows⟩ := List.pairwise_cons.1 h
      rw [Rows.erase]
      split
      · exact hrows
      · exact List.pairwise_cons.2 ⟨fun row hrow => hfirst row (mem_of_mem_erase hrow), ih hrows⟩

theorem Sorted.retain (h : rows.Sorted) (retention : Option Nat) :
    (rows.retain retention).Sorted :=
  List.pairwise_map.2 h

/-! A change of one key in rows that lie between others changes these rows alone. -/

theorem update_append_right (h : ∀ row ∈ front, row.1 < key) :
    update key change (front ++ rows) = front ++ update key change rows := by
  induction front with
  | nil => rfl
  | cons first front ih =>
      have hfirst := h first (List.mem_cons_self ..)
      rw [List.cons_append, update, if_pos hfirst,
        ih fun row hrow => h row (List.mem_cons_of_mem _ hrow), List.cons_append]

theorem update_append_left (h : ∀ row ∈ back, key < row.1) :
    update key change (rows ++ back) = update key change rows ++ back := by
  induction rows with
  | nil =>
      cases back with
      | nil => rfl
      | cons first back =>
          have hfirst := h first (List.mem_cons_self ..)
          have hne : first.1 ≠ key := by order
          simp only [List.nil_append, update, if_neg (lt_asymm hfirst), if_neg hne]
          rfl
  | cons row rows ih =>
      rw [List.cons_append, update, update, ih]
      split
      · rfl
      · split <;> rfl

theorem erase_append_right (h : ∀ row ∈ front, row.1 < key) :
    erase key (front ++ rows) = front ++ erase key rows := by
  induction front with
  | nil => rfl
  | cons first front ih =>
      have hfirst := h first (List.mem_cons_self ..)
      rw [List.cons_append, erase, if_neg (by order),
        ih fun row hrow => h row (List.mem_cons_of_mem _ hrow), List.cons_append]

theorem erase_append_left (h : ∀ row ∈ back, key < row.1) :
    erase key (rows ++ back) = erase key rows ++ back := by
  induction rows with
  | nil =>
      have hmem : ∀ row ∈ back, row.1 ≠ key := fun row hrow => by have := h row hrow; order
      clear h
      induction back with
      | nil => rfl
      | cons first back ih =>
          have htail := ih fun row hrow => hmem row (List.mem_cons_of_mem _ hrow)
          simp only [List.nil_append, erase, if_neg (hmem first (List.mem_cons_self ..))] at htail ⊢
          rw [htail]
  | cons row rows ih =>
      rw [List.cons_append, erase, erase, ih]
      split <;> rfl

/-- A change of rows that concerns one key: it keeps them sorted, brings in no other key, and leaves
rows before and behind the key alone. -/
structure ChangesOnly (key : Bytes) (change : Rows → Rows) : Prop where
  sorted : ∀ {rows : Rows}, rows.Sorted → (change rows).Sorted
  mem : ∀ {rows : Rows} {row : Bytes × VersionChain}, row ∈ change rows → row.1 = key ∨ row ∈ rows
  append_right : ∀ {front rows : Rows}, (∀ row ∈ front, row.1 < key) →
    change (front ++ rows) = front ++ change rows
  append_left : ∀ {rows back : Rows}, (∀ row ∈ back, key < row.1) →
    change (rows ++ back) = change rows ++ back

theorem changesOnly_update (key : Bytes) (change : Option VersionChain → VersionChain) :
    ChangesOnly key (update key change) where
  sorted := Sorted.update
  mem h := (mem_update h).imp_left fun ⟨_, hrow, _⟩ => congrArg Prod.fst hrow
  append_right := update_append_right
  append_left := update_append_left

theorem changesOnly_erase (key : Bytes) : ChangesOnly key (erase key) where
  sorted := Sorted.erase
  mem h := Or.inr (mem_of_mem_erase h)
  append_right := erase_append_right
  append_left := erase_append_left

end Rows

end Strata
