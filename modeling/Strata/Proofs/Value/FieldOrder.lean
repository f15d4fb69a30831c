/-
**The order of fields is no part of a value.**

The fields of the objects in a value, put in other orders, show the same text, hash to the same code
and nest as deep, and what sizes there are stay as they are.  One step puts the fields of one object
in another order; a value and what any steps make of it are in this way the same.

* `Value.Rearranged.symm`, `Value.Rearranged.trans` — an equivalence;
* `Value.Rearranges.render_eq`, `Value.Rearranges.depth_eq`, `Value.Rearranges.fits` — one step;
* `Value.Rearranged.render_eq`, `Value.Rearranged.hashCode_eq`, `Value.Rearranged.depth_eq`,
  `Value.Rearranged.fits` — **any steps**, for texts, codes, depths and sizes.
-/

import Strata.Proofs.Value.Equality
import Strata.Value.Text

set_option relaxedAutoImplicit false
set_option autoImplicit false

namespace Strata.Value

variable {u v w : Value} {items before after : List Value} {fields as bs : List (String × Value)}

/-! ### An equivalence -/

theorem Rearranges.symm (h : Rearranges v w) : Rearranges w v := by
  induction h with
  | fields h => exact .fields h.symm
  | item before after _ ih => exact .item before after ih
  | field name before after _ ih => exact .field name before after ih

theorem Rearranged.trans (h : u.Rearranged v) (h' : v.Rearranged w) : u.Rearranged w := by
  induction h' with
  | refl => exact h
  | tail _ hstep ih => exact ih.tail hstep

theorem Rearranged.symm (h : v.Rearranged w) : w.Rearranged v := by
  induction h with
  | refl => exact .refl
  | tail _ hstep ih => exact (Rearranged.refl.tail hstep.symm).trans ih

/-! ### Depth -/

theorem depthOfItems_eq_foldr (items : List Value) :
    depthOfItems items = (items.map depth).foldr max 0 := by
  induction items with
  | nil => rfl
  | cons item items ih => rw [depthOfItems, ih, List.map_cons, List.foldr_cons]

theorem depthOfFields_eq_foldr (fields : List (String × Value)) :
    depthOfFields fields = (fields.map fun field => field.2.depth).foldr max 0 := by
  induction fields with
  | nil => rfl
  | cons field fields ih => rw [depthOfFields, ih, List.map_cons, List.foldr_cons]

theorem Rearranges.depth_eq (h : Rearranges v w) : v.depth = w.depth := by
  induction h with
  | fields h =>
      rw [depth, depth, depthOfFields_eq_foldr, depthOfFields_eq_foldr]
      exact congrArg (· + 1) ((h.map _).foldr_eq 0)
  | item before after _ ih =>
      simp only [depth, depthOfItems_eq_foldr, List.map_append, List.map_cons, ih]
  | field name before after _ ih =>
      simp only [depth, depthOfFields_eq_foldr, List.map_append, List.map_cons, ih]

/-! ### Sizes -/

theorem itemsFit_iff : ItemsFit items ↔ ∀ item ∈ items, item.Fits := by
  induction items with
  | nil => simp [ItemsFit]
  | cons item items ih => rw [ItemsFit, ih, List.forall_mem_cons]

theorem fieldsFit_iff : FieldsFit fields ↔
    ∀ field ∈ fields, (Bytes.ofText field.1).length < 2 ^ 32 ∧ field.2.Fits := by
  induction fields with
  | nil => simp [FieldsFit]
  | cons field fields ih => rw [FieldsFit, ih, List.forall_mem_cons, and_assoc]

theorem Rearranges.fits (h : Rearranges v w) (hv : v.Fits) : w.Fits := by
  induction h with
  | fields h =>
      refine ⟨h.length_eq ▸ hv.1, fieldsFit_iff.2 fun field hfield => ?_⟩
      exact fieldsFit_iff.1 hv.2 field (h.symm.subset hfield)
  | item before after _ ih =>
      have hitems := itemsFit_iff.1 hv.2
      refine ⟨by simpa using hv.1, itemsFit_iff.2 ?_⟩
      simp only [List.forall_mem_append, List.forall_mem_cons] at hitems ⊢
      exact ⟨hitems.1, ih hitems.2.1, hitems.2.2⟩
  | field name before after _ ih =>
      have hfields := fieldsFit_iff.1 hv.2
      refine ⟨by simpa using hv.1, fieldsFit_iff.2 ?_⟩
      simp only [List.forall_mem_append, List.forall_mem_cons] at hfields ⊢
      exact ⟨hfields.1, ⟨hfields.2.1.1, ih hfields.2.1.2⟩, hfields.2.2⟩

/-! ### Texts -/

theorem renderItems_eq_map (items : List Value) : renderItems items = items.map render := by
  induction items with
  | nil => rfl
  | cons item items ih => rw [renderItems, ih, List.map_cons]

theorem renderFields_eq_map (fields : List (String × Value)) :
    renderFields fields = fields.map fun field => (field.1, field.2.render) := by
  induction fields with
  | nil => rfl
  | cons field fields ih => rw [renderFields, ih, List.map_cons]

/-- Fields with names of their own have one order by name. -/
theorem sortFields_eq_of_perm {α : Type} {as bs : List (String × α)} (h : as.Perm bs)
    (hnames : (as.map Prod.fst).Nodup) : sortFields as = sortFields bs := by
  have htrans : ∀ a b c : String × α, decide (¬ b.1 < a.1) = true → decide (¬ c.1 < b.1) = true →
      decide (¬ c.1 < a.1) = true := by
    intro a b c hab hbc
    simp only [not_lt, decide_eq_true_eq] at hab hbc ⊢
    exact hab.trans hbc
  have htotal : ∀ a b : String × α, (decide (¬ b.1 < a.1) || decide (¬ a.1 < b.1)) = true := by
    intro a b
    simp only [not_lt, Bool.or_eq_true, decide_eq_true_eq]
    exact le_total a.1 b.1
  have hperm : (sortFields as).Perm (sortFields bs) :=
    (List.mergeSort_perm as _).trans (h.trans (List.mergeSort_perm bs _).symm)
  refine List.Perm.eq_of_pairwise (fun a b ha hb hab hba => ?_)
    (List.pairwise_mergeSort htrans htotal as) (List.pairwise_mergeSort htrans htotal bs) hperm
  -- neither name comes before the other, so it is one name, and one field has it
  have hname : a.1 = b.1 := by
    simp only [not_lt, decide_eq_true_eq] at hab hba
    exact le_antisymm hab hba
  exact List.inj_on_of_nodup_map hnames ((List.mergeSort_perm as _).subset ha)
    (h.symm.subset ((List.mergeSort_perm bs _).subset hb)) hname

theorem Rearranges.render_eq (h : Rearranges v w) (hv : v.NamesDistinct) :
    v.render = w.render := by
  induction h with
  | fields h =>
      have hrendered := h.map fun field => (field.1, field.2.render)
      rw [← renderFields_eq_map, ← renderFields_eq_map] at hrendered
      rw [render, render, sortFields_eq_of_perm hrendered]
      rw [renderFields_eq_map, List.map_map]
      exact hv.1
  | item before after _ ih =>
      have hitems := itemsDistinct_iff.1 hv
      simp only [List.forall_mem_append, List.forall_mem_cons] at hitems
      simp only [render, renderItems_eq_map, List.map_append, List.map_cons, ih hitems.2.1]
  | field name before after _ ih =>
      have hfields := fieldsDistinct_iff.1 hv.2
      simp only [List.forall_mem_append, List.forall_mem_cons] at hfields
      simp only [render, renderFields_eq_map, List.map_append, List.map_cons, ih hfields.2.1]

/-! ### Any steps -/

theorem Rearranged.namesDistinct (h : v.Rearranged w) (hv : v.NamesDistinct) : w.NamesDistinct :=
  h.spec.2.1 hv

theorem Rearranged.hashCode_eq (h : v.Rearranged w) : v.hashCode = w.hashCode := h.spec.1

/-- **The text is the same.** -/
theorem Rearranged.render_eq (h : v.Rearranged w) (hv : v.NamesDistinct) :
    v.render = w.render := by
  induction h with
  | refl => rfl
  | tail h hstep ih => exact ih.trans (hstep.render_eq (h.namesDistinct hv))

theorem Rearranged.depth_eq (h : v.Rearranged w) : v.depth = w.depth := by
  induction h with
  | refl => rfl
  | tail _ hstep ih => exact ih.trans hstep.depth_eq

theorem Rearranged.fits (h : v.Rearranged w) (hv : v.Fits) : w.Fits := by
  induction h with
  | refl => exact hv
  | tail _ hstep ih => exact hstep.fits ih

end Strata.Value
