/-
**The laws of equality.**

Objects are equal when every field of the one has an equal field of its name in the other and there
are as many fields.  This looks from one side only; but names are distinct, so as many names among
others are the others, and the other side follows.  With that, equality is symmetric and transitive
on values of any depth.  It is not reflexive, for a NaN differs from itself, and for no other
reason.

The order in which an object lists its fields counts neither for equality nor for hash codes.  Equal
values have equal hash codes, and sums do not depend on an order, so the checksum of pairs depends
on them only up to their order and up to equality.

* `Value.nested_induction` — induction on the depth of a value;
* `Value.equalItems_iff`, `Value.fieldsWithin_iff` — equality of items and of fields;
* `Value.equal_symm`, `Value.equal_trans`, `Value.equal_self_iff` — **the laws of equality**;
* `Value.Rearranged.spec` — the same fields in another order, at any depth;
* `Value.equality_and_codes` — **equality, hash codes and checksums**.
-/

import Strata.Operator.Partial
import Strata.Proofs.Number.Comparison
import Strata.Proofs.Value.Hash
import Strata.Value.FieldOrder

set_option relaxedAutoImplicit false
set_option autoImplicit false

namespace Strata

namespace Value

/-! ### Values of any depth -/

/-- What holds of a value when it holds of its items and of its fields holds of all values. -/
@[elab_as_elim]
theorem nested_induction {motive : Value → Prop} (null : motive null) (bool : ∀ b, motive (bool b))
    (int : ∀ n, motive (int n)) (float : ∀ x, motive (float x)) (text : ∀ s, motive (text s))
    (bytes : ∀ b, motive (bytes b))
    (array : ∀ items, (∀ item ∈ items, motive item) → motive (array items))
    (object : ∀ fields, (∀ field ∈ fields, motive field.2) → motive (object fields)) (v : Value) :
    motive v := by
  refine @Value.rec motive (fun items => ∀ item ∈ items, motive item)
    (fun fields => ∀ field ∈ fields, motive field.2) (fun field => motive field.2)
    null bool int float text bytes array object ?_ ?_ ?_ ?_ (fun _ _ h => h) v
  · exact List.forall_mem_nil _
  · intro item items hitem hitems
    exact List.forall_mem_cons.2 ⟨hitem, hitems⟩
  · exact List.forall_mem_nil _
  · intro field fields hfield hfields
    exact List.forall_mem_cons.2 ⟨hfield, hfields⟩

variable {a b c v w : Value} {as bs cs items : List Value} {fields : List (String × Value)}
  {name : String}

theorem itemsDistinct_iff : ItemsDistinct items ↔ ∀ item ∈ items, item.NamesDistinct := by
  induction items with
  | nil => simp [ItemsDistinct]
  | cons item items ih => rw [ItemsDistinct, ih, List.forall_mem_cons]

theorem fieldsDistinct_iff : FieldsDistinct fields ↔ ∀ field ∈ fields, field.2.NamesDistinct := by
  induction fields with
  | nil => simp [FieldsDistinct]
  | cons field fields ih => rw [FieldsDistinct, ih, List.forall_mem_cons]

/-- Arrays are equal item by item. -/
theorem equalItems_iff : equalItems as bs = true ↔ List.Forall₂ (fun a b => equal a b = true) as bs
    := by
  induction as generalizing bs with
  | nil => cases bs <;> simp [equalItems]
  | cons a as ih => cases bs <;> simp [equalItems, ih]

/-- The fields of one object are equal to fields of another when those are found by their names. -/
theorem fieldsWithin_iff {as bs : List (String × Value)} : fieldsWithin as bs = true ↔
    ∀ field ∈ as, ∃ b, bs.lookup field.1 = some b ∧ equal field.2 b = true := by
  induction as with
  | nil => simp [fieldsWithin]
  | cons field as ih =>
      rw [fieldsWithin, Bool.and_eq_true, ih, List.forall_mem_cons]
      cases bs.lookup field.1 <;> simp

/-- With distinct names a field is found exactly where it is. -/
theorem lookup_iff_mem (h : (fields.map Prod.fst).Nodup) :
    fields.lookup name = some v ↔ (name, v) ∈ fields := by
  rw [List.lookup_eq_some_iff]
  constructor
  · rintro ⟨before, after, rfl, -⟩
    simp
  · intro hmem
    obtain ⟨before, after, rfl⟩ := List.append_of_mem hmem
    refine ⟨before, after, rfl, fun field hfield => ?_⟩
    rw [List.map_append, List.nodup_append] at h
    simpa using (h.2.2 field.1 (List.mem_map_of_mem hfield) name (by simp)).symm

/-- As many distinct names among others are the others. -/
theorem subset_of_names {as bs : List (String × Value)} (hnodup : (as.map Prod.fst).Nodup)
    (hsub : as.map Prod.fst ⊆ bs.map Prod.fst) (hlength : as.length = bs.length) :
    bs.map Prod.fst ⊆ as.map Prod.fst := by
  have hperm : (as.map Prod.fst).Perm (bs.map Prod.fst) := by
    refine (List.subperm_of_subset hnodup hsub).perm_of_length_le ?_
    rw [List.length_map, List.length_map, hlength]
  exact hperm.symm.subset

/-! ### Symmetry -/

theorem equalItems_symm (h : equalItems as bs = true)
    (hsymm : ∀ a ∈ as, ∀ b ∈ bs, equal a b = true → equal b a = true) :
    equalItems bs as = true := by
  rw [equalItems_iff] at h ⊢
  induction h with
  | nil => exact .nil
  | @cons a b as bs hab _ ih =>
      refine .cons (hsymm a (by simp) b (by simp) hab) (ih fun a ha b hb => ?_)
      exact hsymm a (List.mem_cons_of_mem _ ha) b (List.mem_cons_of_mem _ hb)

theorem fieldsWithin_symm {as bs : List (String × Value)} (has : (as.map Prod.fst).Nodup)
    (hbs : (bs.map Prod.fst).Nodup) (hlength : as.length = bs.length)
    (h : fieldsWithin as bs = true)
    (hsymm : ∀ a ∈ as, ∀ b ∈ bs, equal a.2 b.2 = true → equal b.2 a.2 = true) :
    fieldsWithin bs as = true := by
  rw [fieldsWithin_iff] at h ⊢
  have hsub : as.map Prod.fst ⊆ bs.map Prod.fst := by
    intro name hname
    obtain ⟨a, ha, rfl⟩ := List.mem_map.1 hname
    obtain ⟨v, hv, -⟩ := h a ha
    exact List.mem_map.2 ⟨_, (lookup_iff_mem hbs).1 hv, rfl⟩
  intro b hb
  -- the name is one of the others, and on either side there is one field of that name
  obtain ⟨a, ha, hname⟩ :=
    List.mem_map.1 (subset_of_names has hsub hlength (List.mem_map_of_mem hb))
  obtain ⟨v, hv, hequal⟩ := h a ha
  rw [hname, (lookup_iff_mem hbs).2 hb, Option.some_inj] at hv
  refine ⟨a.2, (lookup_iff_mem has).2 (hname ▸ ha), hsymm a ha b hb (hv ▸ hequal)⟩

/-- **Equality is symmetric.** -/
theorem equal_symm (ha : a.NamesDistinct) (hb : b.NamesDistinct) (h : equal a b = true) :
    equal b a = true := by
  induction a using nested_induction generalizing b with
  | null | bool | int | text | bytes => cases b <;> simp_all [equal]
  | float x =>
      cases b with
      | float y => exact Number.beq_symm h
      | _ => simp [equal] at h
  | array as ih =>
      cases b with
      | array bs =>
          have has := itemsDistinct_iff.1 ha
          have hbs := itemsDistinct_iff.1 hb
          exact equalItems_symm h fun a ha b hb => ih a ha (has a ha) (hbs b hb)
      | _ => simp [equal] at h
  | object as ih =>
      cases b with
      | object bs =>
          have has := fieldsDistinct_iff.1 ha.2
          have hbs := fieldsDistinct_iff.1 hb.2
          rw [equal, Bool.and_eq_true, beq_iff_eq] at h ⊢
          refine ⟨h.1.symm, fieldsWithin_symm ha.1 hb.1 h.1 h.2 ?_⟩
          exact fun a ha b hb => ih a ha (has a ha) (hbs b hb)
      | _ => simp [equal] at h

/-! ### Transitivity -/

theorem equalItems_trans (hab : equalItems as bs = true) (hbc : equalItems bs cs = true)
    (htrans : ∀ a ∈ as, ∀ b c, equal a b = true → equal b c = true → equal a c = true) :
    equalItems as cs = true := by
  rw [equalItems_iff] at hab hbc ⊢
  induction hab generalizing cs with
  | nil => exact hbc
  | @cons a b as bs hab _ ih =>
      cases hbc with
      | @cons _ c _ cs hbc hrest =>
          refine .cons (htrans a (by simp) b c hab hbc) (ih hrest fun a ha => ?_)
          exact htrans a (List.mem_cons_of_mem _ ha)

theorem fieldsWithin_trans {as bs cs : List (String × Value)} (hab : fieldsWithin as bs = true)
    (hbc : fieldsWithin bs cs = true)
    (htrans : ∀ a ∈ as, ∀ b c, equal a.2 b = true → equal b c = true → equal a.2 c = true) :
    fieldsWithin as cs = true := by
  rw [fieldsWithin_iff] at hab hbc ⊢
  intro a ha
  obtain ⟨b, hb, heq⟩ := hab a ha
  obtain ⟨before, after, hsplit, -⟩ := List.lookup_eq_some_iff.1 hb
  obtain ⟨c, hc, heq'⟩ := hbc (a.1, b) (by simp [hsplit])
  exact ⟨c, hc, htrans a ha b c heq heq'⟩

/-- **Equality is transitive.** -/
theorem equal_trans (hab : equal a b = true) (hbc : equal b c = true) : equal a c = true := by
  induction a using nested_induction generalizing b c with
  | null | bool | int | text | bytes => cases b <;> cases c <;> simp_all [equal]
  | float x =>
      cases b with
      | float y =>
          cases c with
          | float z => exact Number.beq_trans hab hbc
          | _ => simp [equal] at hbc
      | _ => simp [equal] at hab
  | array as ih =>
      cases b with
      | array bs =>
          cases c with
          | array cs => exact equalItems_trans hab hbc fun a ha b c => ih a ha
          | _ => simp [equal] at hbc
      | _ => simp [equal] at hab
  | object as ih =>
      cases b with
      | object bs =>
          cases c with
          | object cs =>
              rw [equal, Bool.and_eq_true, beq_iff_eq] at hab hbc ⊢
              refine ⟨hab.1.trans hbc.1, fieldsWithin_trans hab.2 hbc.2 ?_⟩
              exact fun a ha b c => ih a ha
          | _ => simp [equal] at hbc
      | _ => simp [equal] at hab

/-! ### Values that equal themselves -/

/-- A value occurs in another, at any depth. -/
inductive Within (part : Value) : Value → Prop where
  | self : Within part part
  | item {items : List Value} {item : Value} (hmem : item ∈ items) (h : Within part item) :
      Within part (.array items)
  | field {fields : List (String × Value)} {field : String × Value} (hmem : field ∈ fields)
      (h : Within part field.2) : Within part (.object fields)

theorem within_array {part : Value} : Within part (.array items) ↔
    part = .array items ∨ ∃ item ∈ items, Within part item := by
  constructor
  · intro h
    cases h with
    | self => exact Or.inl rfl
    | item hmem h => exact Or.inr ⟨_, hmem, h⟩
  · rintro (rfl | ⟨item, hmem, h⟩)
    · exact .self
    · exact .item hmem h

theorem within_object {part : Value} : Within part (.object fields) ↔
    part = .object fields ∨ ∃ field ∈ fields, Within part field.2 := by
  constructor
  · intro h
    cases h with
    | self => exact Or.inl rfl
    | field hmem h => exact Or.inr ⟨_, hmem, h⟩
  · rintro (rfl | ⟨field, hmem, h⟩)
    · exact .self
    · exact .field hmem h

theorem equalItems_self_iff : equalItems items items = true ↔
    ∀ item ∈ items, equal item item = true := by
  rw [equalItems_iff, List.forall₂_same]

theorem fieldsWithin_self_iff (h : (fields.map Prod.fst).Nodup) :
    fieldsWithin fields fields = true ↔ ∀ field ∈ fields, equal field.2 field.2 = true := by
  rw [fieldsWithin_iff]
  refine forall₂_congr fun field hfield => ?_
  rw [(lookup_iff_mem h).2 hfield]
  simp

/-- **A value equals itself exactly when no NaN occurs in it.** -/
theorem equal_self_iff (ha : a.NamesDistinct) :
    equal a a = true ↔ ∀ x, Within (.float x) a → x.isNaN = false := by
  induction a using nested_induction with
  | null | bool | int | text | bytes =>
      simp only [equal, beq_self_eq_true, true_iff]
      intro x h
      cases h
  | float x =>
      rw [equal, Number.beq_self_iff]
      constructor
      · intro h y hy
        cases hy
        exact h
      · intro h
        exact h x .self
  | array items ih =>
      have hitems := itemsDistinct_iff.1 ha
      simp only [equal, equalItems_self_iff, within_array, reduceCtorEq, false_or]
      constructor
      · rintro h x ⟨item, hmem, hx⟩
        exact (ih item hmem (hitems item hmem)).1 (h item hmem) x hx
      · intro h item hmem
        exact (ih item hmem (hitems item hmem)).2 fun x hx => h x ⟨item, hmem, hx⟩
  | object fields ih =>
      have hfields := fieldsDistinct_iff.1 ha.2
      simp only [equal, beq_self_eq_true, Bool.true_and, fieldsWithin_self_iff ha.1, within_object,
        reduceCtorEq, false_or]
      constructor
      · rintro h x ⟨field, hmem, hx⟩
        exact (ih field hmem (hfields field hmem)).1 (h field hmem) x hx
      · intro h field hmem
        exact (ih field hmem (hfields field hmem)).2 fun x hx => h x ⟨field, hmem, hx⟩

/-! ### Fields in another order -/

theorem hashItems_eq_foldl (code : UInt32) (items : List Value) :
    hashItems code items = (items.map hashCode).foldl mix code := by
  induction items generalizing code with
  | nil => rfl
  | cons item items ih => exact ih _

/-- **The order of fields does not count for hash codes.** -/
theorem Rearranges.hashCode_eq (h : Rearranges v w) : hashCode v = hashCode w := by
  induction h with
  | fields h => exact hashFields_perm h 0
  | item before after _ ih =>
      rw [hashCode, hashCode, hashItems_eq_foldl, hashItems_eq_foldl, List.map_append,
        List.map_append, List.map_cons, List.map_cons, ih]
  | field name before after _ ih =>
      rw [hashCode, hashCode]
      refine hashFields_congr ?_ 0
      rw [List.map_append, List.map_append, List.map_cons, List.map_cons, fieldCode, fieldCode, ih]

theorem Rearranges.namesDistinct (h : Rearranges v w) (hv : v.NamesDistinct) :
    w.NamesDistinct := by
  induction h with
  | fields h =>
      refine ⟨(h.map Prod.fst).nodup_iff.1 hv.1, fieldsDistinct_iff.2 fun field hfield => ?_⟩
      exact fieldsDistinct_iff.1 hv.2 field (h.symm.subset hfield)
  | item before after _ ih =>
      have hitems := itemsDistinct_iff.1 hv
      refine itemsDistinct_iff.2 ?_
      simp only [List.forall_mem_append, List.forall_mem_cons] at hitems ⊢
      exact ⟨hitems.1, ih hitems.2.1, hitems.2.2⟩
  | field name before after _ ih =>
      have hfields := fieldsDistinct_iff.1 hv.2
      refine ⟨by simpa using hv.1, fieldsDistinct_iff.2 ?_⟩
      simp only [List.forall_mem_append, List.forall_mem_cons] at hfields ⊢
      exact ⟨hfields.1, ih hfields.2.1, hfields.2.2⟩

theorem equalItems_congr (before after : List Value) (h : ∀ c, equal v c = equal w c) :
    ∀ cs, equalItems (before ++ v :: after) cs = equalItems (before ++ w :: after) cs := by
  induction before with
  | nil =>
      intro cs
      cases cs with
      | nil => rfl
      | cons c cs => rw [List.nil_append, List.nil_append, equalItems, equalItems, h]
  | cons item before ih =>
      intro cs
      cases cs with
      | nil => rfl
      | cons c cs => rw [List.cons_append, List.cons_append, equalItems, equalItems, ih]

/-- **The order of fields does not count for equality.** -/
theorem Rearranges.equal_eq (h : Rearranges v w) : ∀ c, equal v c = equal w c := by
  induction h with
  | @fields as bs h =>
      intro c
      cases c with
      | object cs =>
          rw [equal, equal, h.length_eq, Bool.eq_iff_iff, Bool.and_eq_true, Bool.and_eq_true,
            fieldsWithin_iff, fieldsWithin_iff]
          simp only [h.mem_iff]
      | _ => rfl
  | item before after _ ih =>
      intro c
      cases c with
      | array cs => exact equalItems_congr before after ih cs
      | _ => rfl
  | field name before after _ ih =>
      intro c
      cases c with
      | object cs =>
          rw [equal, equal, List.length_append, List.length_append, List.length_cons,
            List.length_cons, Bool.eq_iff_iff, Bool.and_eq_true, Bool.and_eq_true,
            fieldsWithin_iff, fieldsWithin_iff]
          simp only [List.forall_mem_append, List.forall_mem_cons, ih]
      | _ => rfl

theorem Rearranged.spec (h : Rearranged v w) :
    hashCode v = hashCode w ∧ (v.NamesDistinct → w.NamesDistinct) ∧
      ∀ c, equal v c = equal w c := by
  induction h with
  | refl => exact ⟨rfl, id, fun _ => rfl⟩
  | tail _ hstep ih =>
      obtain ⟨hcode, hnames, hequal⟩ := ih
      refine ⟨hcode.trans hstep.hashCode_eq, fun hv => hstep.namesDistinct (hnames hv), fun c => ?_⟩
      rw [hequal, hstep.equal_eq]

/-! ### Equality, hash codes and checksums -/

theorem equal_comm (ha : a.NamesDistinct) (hb : b.NamesDistinct) : equal a b = equal b a := by
  rw [Bool.eq_iff_iff]
  exact ⟨equal_symm ha hb, equal_symm hb ha⟩

end Value

/-! ### Sums of hash codes -/

namespace Checksum

/-- Adds two hash codes. -/
def plus (c : Checksum) (codes : UInt32 × UInt32) : Checksum :=
  ⟨c.keys + codes.1, c.values + codes.2⟩

/-- The order in which hash codes are added does not count. -/
theorem foldl_plus_perm {a b : List (UInt32 × UInt32)} (h : a.Perm b) (c : Checksum) :
    a.foldl plus c = b.foldl plus c := by
  have hcomm : ∀ x y z : UInt32, x + y + z = x + z + y := by
    intro x y z
    rw [UInt32.add_assoc, UInt32.add_comm y, ← UInt32.add_assoc]
  have : RightCommutative plus := ⟨fun c x y => by simp only [plus, hcomm c.keys, hcomm c.values]⟩
  exact h.foldl_eq c

theorem ofPairs_eq (pairs : List (Value × Value)) :
    ofPairs pairs =
      (pairs.map fun pair => (pair.1.hashCode, pair.2.hashCode)).foldl plus empty := by
  rw [ofPairs, List.foldl_map]
  rfl

/-- **A checksum depends on pairs up to their order and up to equality.** -/
theorem ofPairs_congr {ps qs rs : List (Value × Value)} (hperm : ps.Perm rs)
    (hnames : ∀ pair ∈ ps, pair.1.NamesDistinct ∧ pair.2.NamesDistinct)
    (hequal : List.Forall₂ (fun p q => (p.1 == q.1) = true ∧ (p.2 == q.2) = true) rs qs) :
    ofPairs ps = ofPairs qs := by
  have hcodes : rs.map (fun pair => (pair.1.hashCode, pair.2.hashCode)) =
      qs.map fun pair => (pair.1.hashCode, pair.2.hashCode) := by
    have hnames : ∀ pair ∈ rs, pair.1.NamesDistinct ∧ pair.2.NamesDistinct :=
      fun pair hpair => hnames pair (hperm.symm.subset hpair)
    clear hperm
    induction hequal with
    | nil => rfl
    | @cons p q rs qs hpq _ ih =>
        rw [List.forall_mem_cons] at hnames
        rw [List.map_cons, List.map_cons, ih hnames.2,
          Value.hashCode_eq_of_equal p.1 q.1 hnames.1.1 hpq.1,
          Value.hashCode_eq_of_equal p.2 q.2 hnames.1.2 hpq.2]
  rw [ofPairs_eq, ofPairs_eq, foldl_plus_perm (hperm.map _), hcodes]

end Checksum

/-! ### The whole law -/

/-- **Equality, hash codes and checksums agree.**  In each object the fields have names of their
own.  Equality is then symmetric and transitive, and a value equals itself exactly when no NaN
occurs in it.  Equal values have equal hash codes.  The order in which fields are listed, at any
depth, changes neither the hash code nor what the value equals.  Sequences of pairs that are, up to
equality, the same in some order have the same packed checksum. -/
theorem Value.equality_and_codes (a b c : Value) (ha : a.NamesDistinct) (hb : b.NamesDistinct) :
    ((a == b) = true → (b == a) = true) ∧
    ((a == b) = true → (b == c) = true → (a == c) = true) ∧
    ((a == a) = true ↔ ∀ x, Within (.float x) a → x.isNaN = false) ∧
    ((a == b) = true → a.hashCode = b.hashCode) ∧
    (∀ a', Rearranged a a' → a'.NamesDistinct ∧ a'.hashCode = a.hashCode ∧
      (a' == b) = (a == b) ∧ (b == a') = (b == a)) ∧
    ∀ ps qs rs : List (Value × Value),
      (∀ pair ∈ ps, pair.1.NamesDistinct ∧ pair.2.NamesDistinct) → ps.Perm rs →
      List.Forall₂ (fun p q => (p.1 == q.1) = true ∧ (p.2 == q.2) = true) rs qs →
      (Checksum.ofPairs ps).packed = (Checksum.ofPairs qs).packed := by
  refine ⟨equal_symm ha hb, equal_trans, equal_self_iff ha, hashCode_eq_of_equal a b ha, ?_, ?_⟩
  · intro a' ha'
    obtain ⟨hcode, hnames, hequal⟩ := Rearranged.spec ha'
    have heq : equal a' b = equal a b := (hequal b).symm
    refine ⟨hnames ha, hcode.symm, heq, ?_⟩
    show equal b a' = equal b a
    rw [equal_comm hb (hnames ha), heq, equal_comm ha hb]
  · intro ps qs rs hnames hperm hequal
    rw [Checksum.ofPairs_congr hperm hnames hequal]

/-- Two objects that list their fields in different orders and have zeros of different signs: each
equals the other and itself, and they have one hash code. -/
theorem Value.equality_and_codes_zeros :
    let plus : Value := .object [("x", .float 0), ("y", .array [.null, .int 1])]
    let minus : Value := .object [("y", .array [.null, .int 1]), ("x", .float (-0))]
    plus.NamesDistinct ∧ minus.NamesDistinct ∧ (plus == minus) = true ∧ (minus == plus) = true ∧
      (plus == plus) = true ∧ plus.hashCode = minus.hashCode ∧
      (Checksum.ofPairs [(.null, plus), (minus, .null)]).packed =
        (Checksum.ofPairs [(plus, .null), (.null, minus)]).packed := by
  intro plus minus
  have hplus : plus.NamesDistinct := by
    simp [plus, NamesDistinct, FieldsDistinct, ItemsDistinct]
  have hminus : minus.NamesDistinct := by
    simp [minus, NamesDistinct, FieldsDistinct, ItemsDistinct]
  have hequal : (plus == minus) = true := by decide
  obtain ⟨hsymm, htrans, -, hcode, -, hchecksum⟩ :=
    Value.equality_and_codes plus minus plus hplus hminus
  have hminusPlus := hsymm hequal
  refine ⟨hplus, hminus, hequal, hminusPlus, htrans hequal hminusPlus, hcode hequal, ?_⟩
  refine hchecksum _ _ [(minus, .null), (.null, plus)] ?_ (List.Perm.swap _ _ _) ?_
  · simp [hplus, hminus, NamesDistinct]
  · exact .cons ⟨hminusPlus, rfl⟩ (.cons ⟨rfl, hequal⟩ .nil)

end Strata
