/-
**Equal values have equal hash codes.**

Equal doubles are the same or both zero, and zeros share a code.  Two objects are equal when every
field of the one has an equal field of its name in the other, and there are as many; so if no two
fields of the first share a name, the fields of the second are as many fields in another order, and
a sum over fields does not depend on the order.  What is read out of bytes never has two fields of
one name.

* `Value.NamesDistinct` — objects as finite maps;
* `Value.hashCode_eq_of_equal` — **equal values, equal codes**;
* `Codec.namesDistinct_of_decode` — what is read.
-/

import Strata.Proofs.Codec.Announced
import Strata.Proofs.Number.Equality
import Strata.Value.Hash

set_option relaxedAutoImplicit false
set_option autoImplicit false

namespace Strata

/-- **Equal doubles share the word that stands for them.** -/
theorem Number.hashWord_eq_of_beq {x y : Float} (h : (x == y) = true) :
    Value.hashWord x = Value.hashWord y := by
  rcases Number.eq_or_zeros_of_beq h with rfl | ⟨hx, hy⟩
  · rfl
  · rw [Value.hashWord, Value.hashWord, if_pos hx, if_pos hy]

/-! ### Objects as finite maps -/

namespace Value

mutual

/-- No object in the value has two fields of one name. -/
def NamesDistinct : Value → Prop
  | .array items => ItemsDistinct items
  | .object fields => (fields.map Prod.fst).Nodup ∧ FieldsDistinct fields
  | _ => True

/-- No object in an item has two fields of one name. -/
def ItemsDistinct : List Value → Prop
  | [] => True
  | item :: items => item.NamesDistinct ∧ ItemsDistinct items

/-- No object in a field has two fields of one name. -/
def FieldsDistinct : List (String × Value) → Prop
  | [] => True
  | (_, v) :: fields => v.NamesDistinct ∧ FieldsDistinct fields

end

/-! ### Hash codes -/

/-- The code that a field adds to that of its object. -/
def fieldCode (field : String × Value) : UInt32 := hashText field.1 ^^^ hashCode field.2

theorem hashFields_eq_foldl (code : UInt32) (fields : List (String × Value)) :
    hashFields code fields = (fields.map fieldCode).foldl (· + ·) code := by
  induction fields generalizing code with
  | nil => rfl
  | cons field fields ih => exact ih _

/-- The order of the fields does not count. -/
theorem hashFields_perm {as bs : List (String × Value)} (h : as.Perm bs) (code : UInt32) :
    hashFields code as = hashFields code bs := by
  have hcomm : RightCommutative fun a b : UInt32 => a + b :=
    ⟨fun a b c => by rw [UInt32.add_assoc, UInt32.add_comm b, ← UInt32.add_assoc]⟩
  rw [hashFields_eq_foldl, hashFields_eq_foldl]
  exact (h.map fieldCode).foldl_eq code

theorem hashFields_congr {as bs : List (String × Value)} (h : as.map fieldCode = bs.map fieldCode)
    (code : UInt32) : hashFields code as = hashFields code bs := by
  rw [hashFields_eq_foldl, hashFields_eq_foldl, h]

/-- As many fields with as many names among others are the others, in some order. -/
theorem perm_of_fields {as image bs : List (String × Value)} (hnodup : (as.map Prod.fst).Nodup)
    (hnames : image.map Prod.fst = as.map Prod.fst) (hmem : ∀ field ∈ image, field ∈ bs)
    (hlength : as.length = bs.length) : image.Perm bs := by
  have himage : image.Nodup := List.Nodup.of_map Prod.fst (hnames ▸ hnodup)
  have hsize : image.length = as.length := by
    rw [← List.length_map (f := Prod.fst), hnames, List.length_map]
  refine (List.subperm_of_subset himage hmem).perm_of_length_le ?_
  omega

mutual

/-- **Equal values have equal hash codes.** -/
theorem hashCode_eq_of_equal (a b : Value) (hnames : a.NamesDistinct) (h : equal a b = true) :
    hashCode a = hashCode b :=
  match a, b, hnames, h with
  | .null, .null, _, _ => rfl
  | .bool a, .bool b, _, h => by rw [eq_of_beq h]
  | .int a, .int b, _, h => by rw [eq_of_beq h]
  | .float a, .float b, _, h => congrArg foldWord (Number.hashWord_eq_of_beq h)
  | .text a, .text b, _, h => by rw [eq_of_beq h]
  | .bytes a, .bytes b, _, h => by rw [eq_of_beq h]
  | .array as, .array bs, hnames, h => hashItems_eq_of_equal as bs 1 hnames h
  | .object as, .object bs, hnames, h => by
      rw [equal, Bool.and_eq_true, beq_iff_eq] at h
      obtain ⟨image, himage, hmem, hcodes⟩ := exists_image as bs hnames.2 h.2
      rw [hashCode, hashCode, ← hashFields_congr hcodes]
      exact hashFields_perm (perm_of_fields hnames.1 himage hmem h.1) 0

theorem hashItems_eq_of_equal (as bs : List Value) (code : UInt32) (hnames : ItemsDistinct as)
    (h : equalItems as bs = true) : hashItems code as = hashItems code bs :=
  match as, bs, hnames, h with
  | [], [], _, _ => rfl
  | a :: as, b :: bs, hnames, h => by
      rw [equalItems, Bool.and_eq_true] at h
      rw [hashItems, hashItems, hashCode_eq_of_equal a b hnames.1 h.1]
      exact hashItems_eq_of_equal as bs _ hnames.2 h.2

/-- The fields that are found equal, by name, add the same codes. -/
theorem exists_image (as bs : List (String × Value)) (hnames : FieldsDistinct as)
    (h : fieldsWithin as bs = true) :
    ∃ image : List (String × Value), image.map Prod.fst = as.map Prod.fst ∧
      (∀ field ∈ image, field ∈ bs) ∧ image.map fieldCode = as.map fieldCode :=
  match as, hnames, h with
  | [], _, _ => ⟨[], rfl, by simp, rfl⟩
  | (name, a) :: as, hnames, h => by
      rw [fieldsWithin, Bool.and_eq_true] at h
      obtain ⟨image, himage, hmem, hcodes⟩ := exists_image as bs hnames.2 h.2
      cases hfound : bs.lookup name with
      | none => simp [hfound] at h
      | some b =>
          rw [hfound] at h
          obtain ⟨front, back, hsplit, -⟩ := List.lookup_eq_some_iff.1 hfound
          have hcode := hashCode_eq_of_equal a b hnames.1 h.1
          refine ⟨(name, b) :: image, ?_, ?_, ?_⟩
          · rw [List.map_cons, List.map_cons, himage]
          · rw [List.forall_mem_cons]
            exact ⟨by simp [hsplit], hmem⟩
          · rw [List.map_cons, List.map_cons, hcodes, fieldCode, fieldCode, hcode]

end

/-! ### What is read -/

variable {name : String} {v : Value} {fields known : List (String × Value)}

theorem map_fst_setField (h : name ∈ fields.map Prod.fst) :
    (setField name v fields).map Prod.fst = fields.map Prod.fst := by
  induction fields with
  | nil => cases h
  | cons field fields ih =>
      rw [setField]
      split
      · next heq => rw [List.map_cons, List.map_cons, heq]
      · next hne =>
        have htail : name ∈ fields.map Prod.fst :=
          (List.mem_cons.1 h).resolve_left (Ne.symm hne)
        rw [List.map_cons, List.map_cons, ih htail]

theorem setField_of_not_mem (h : name ∉ fields.map Prod.fst) :
    setField name v fields = fields ++ [(name, v)] := by
  induction fields with
  | nil => rfl
  | cons field fields ih =>
      rw [List.map_cons, List.mem_cons, not_or] at h
      rw [setField, if_neg (Ne.symm h.1), ih h.2, List.cons_append]

theorem nodup_setField (h : (fields.map Prod.fst).Nodup) :
    ((setField name v fields).map Prod.fst).Nodup := by
  by_cases hname : name ∈ fields.map Prod.fst
  · rwa [map_fst_setField hname]
  · rw [setField_of_not_mem hname, List.map_append]
    refine List.nodup_append.2 ⟨h, List.nodup_singleton _, ?_⟩
    intro known hknown other hother
    obtain rfl := List.mem_singleton.1 hother
    rintro rfl
    exact hname hknown

theorem fieldsDistinct_setField (hv : v.NamesDistinct) (h : FieldsDistinct fields) :
    FieldsDistinct (setField name v fields) := by
  induction fields with
  | nil => exact ⟨hv, trivial⟩
  | cons field fields ih =>
      rw [setField]
      split
      · exact ⟨hv, h.2⟩
      · exact ⟨h.1, ih h.2⟩

/-- Fields put where they belong among those before them have names of their own. -/
theorem namesDistinct_foldl (hknown : (known.map Prod.fst).Nodup ∧ FieldsDistinct known)
    (h : FieldsDistinct fields) :
    (object (fields.foldl (fun known field => setField field.1 field.2 known) known)).NamesDistinct
      := by
  induction fields generalizing known with
  | nil => exact hknown
  | cons field fields ih =>
      exact ih ⟨nodup_setField hknown.1, fieldsDistinct_setField h.1 hknown.2⟩ h.2

theorem namesDistinct_ofFields (h : FieldsDistinct fields) : (ofFields fields).NamesDistinct :=
  namesDistinct_foldl ⟨List.nodup_nil, trivial⟩ h

end Value

namespace Codec

open MessagePack

variable {v : Value} {bytes : Bytes} {c : Codec}

mutual

/-- What a document packs has names of its own for the fields of every object. -/
theorem namesDistinct_ofDoc? (depth : Nat) (doc : Doc) (v : Value)
    (h : ofDoc? depth doc = some v) : v.NamesDistinct := by
  unfold ofDoc? at h
  split at h
  · next name content =>
    split at h
    · exact namesDistinct_ofContent? _ _ content v h
    · cases h
  · cases h
  · split at h
    · obtain rfl := Option.some.inj h
      trivial
    · cases h

theorem namesDistinct_ofContent? (depth : Nat) (kind : Kind) (content : Doc) (v : Value)
    (h : ofContent? depth kind content = some v) : v.NamesDistinct := by
  unfold ofContent? at h
  split at h
  · obtain rfl := Option.some.inj h
    trivial
  · obtain rfl := Option.some.inj h
    trivial
  · split at h
    · split at h
      · obtain rfl := Option.some.inj h
        trivial
      · cases h
    · cases h
  · obtain ⟨x, -, rfl⟩ := Option.map_eq_some_iff.1 h
    trivial
  · obtain ⟨s, -, rfl⟩ := Option.map_eq_some_iff.1 h
    trivial
  · obtain rfl := Option.some.inj h
    trivial
  · obtain ⟨b, -, rfl⟩ := Option.map_eq_some_iff.1 h
    trivial
  · obtain rfl := Option.some.inj h
    trivial
  · next depth items =>
    obtain ⟨found, hfound, rfl⟩ := Option.map_eq_some_iff.1 h
    exact namesDistinct_ofDocs? depth items found hfound
  · next depth entries =>
    obtain ⟨found, hfound, rfl⟩ := Option.map_eq_some_iff.1 h
    exact Value.namesDistinct_ofFields (namesDistinct_ofEntries? depth entries found hfound)
  · cases h

theorem namesDistinct_ofDocs? (depth : Nat) (items : List Doc) (found : List Value)
    (h : ofDocs? depth items = some found) : Value.ItemsDistinct found := by
  unfold ofDocs? at h
  split at h
  · obtain rfl := Option.some.inj h
    trivial
  · next item items =>
    split at h
    · cases h
    · next v hv =>
      obtain ⟨rest, hrest, rfl⟩ := Option.map_eq_some_iff.1 h
      exact ⟨namesDistinct_ofDoc? _ item v hv, namesDistinct_ofDocs? _ items rest hrest⟩

theorem namesDistinct_ofEntries? (depth : Nat) (entries : List (Doc × Doc))
    (found : List (String × Value)) (h : ofEntries? depth entries = some found) :
    Value.FieldsDistinct found := by
  unfold ofEntries? at h
  split at h
  · obtain rfl := Option.some.inj h
    trivial
  · next name content entries =>
    split at h
    · cases h
    · split at h
      · cases h
      · next v hv =>
        obtain ⟨rest, hrest, rfl⟩ := Option.map_eq_some_iff.1 h
        exact ⟨namesDistinct_ofDoc? _ content v hv, namesDistinct_ofEntries? _ entries rest hrest⟩

end

theorem namesDistinct_unpack? (h : unpack? bytes = some v) : v.NamesDistinct := by
  rw [unpack?] at h
  split at h
  · cases h
  · exact namesDistinct_ofDoc? _ _ v h

/-- **What a codec reads** has names of its own for the fields of every object. -/
theorem namesDistinct_of_decode (h : c.decode bytes = .ok v) : v.NamesDistinct := by
  rcases decode_cases h with ⟨n, rfl⟩ | ⟨x, rfl⟩ | ⟨s, rfl⟩ | ⟨b, rfl⟩ | ⟨payload, hpayload⟩
  · trivial
  · trivial
  · trivial
  · trivial
  · exact namesDistinct_unpack? hpayload

end Codec

end Strata
