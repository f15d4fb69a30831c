/-
**Objects written in any order are read alike.**

An object can be written with its fields in any order, and the bytes differ.  What is read of them
is the same up to that order: either the fields as they were written or, by a codec that did not
write them, nothing that the fields could be told from.  A value that holds no object of two fields
has one order, so there is one way to write it.

* `Value.HoldsFields`, `Value.Rearranged.eq_or_holdsFields` — the values that can be rearranged;
* `Value.Rearranged.eq_of_singleFields` — the values that have one order;
* `Codec.Writes` — the bytes of a value in some order of its fields;
* `Codec.Legible.decode_iff` — what any codec reads of a value with an object in it;
* `Codec.Writes.decode` — **bytes of one value are read alike**, by any codec.
-/

import Strata.Proofs.Codec.RoundTrip
import Strata.Proofs.Codec.Stable
import Strata.Proofs.Value.FieldOrder

set_option relaxedAutoImplicit false
set_option autoImplicit false

namespace Strata

/-! ### Values that can be rearranged -/

namespace Value

variable {v w : Value} {items : List Value} {fields : List (String × Value)}

/-- Somewhere in the value is an object. -/
def HoldsFields (v : Value) : Prop := ∃ w, Rearranges v w

/-- Where there is no object nothing is rearranged. -/
theorem Rearranged.eq_or_holdsFields (h : v.Rearranged w) :
    v = w ∨ v.HoldsFields ∧ w.HoldsFields := by
  induction h with
  | refl => exact Or.inl rfl
  | tail _ hstep ih =>
      have hlast : HoldsFields _ := ⟨_, hstep.symm⟩
      rcases ih with rfl | ⟨hv, -⟩
      · exact Or.inr ⟨⟨_, hstep⟩, hlast⟩
      · exact Or.inr ⟨hv, hlast⟩

/-- What holds an object is one, or an array that is not empty. -/
theorem HoldsFields.cases (h : v.HoldsFields) :
    (∃ item items, v = .array (item :: items)) ∨ ∃ fields, v = .object fields := by
  obtain ⟨w, hstep⟩ := h
  cases hstep with
  | fields _ => exact Or.inr ⟨_, rfl⟩
  | item before after _ =>
      cases before with
      | nil => exact Or.inl ⟨_, _, rfl⟩
      | cons item before => exact Or.inl ⟨_, _, rfl⟩
  | field => exact Or.inr ⟨_, rfl⟩

theorem HoldsFields.number?_eq_none (h : v.HoldsFields) : v.number? = none := by
  rcases h.cases with ⟨item, items, rfl⟩ | ⟨fields, rfl⟩ <;> rfl

theorem Rearranged.number?_eq (h : v.Rearranged w) : v.number? = w.number? := by
  rcases h.eq_or_holdsFields with rfl | ⟨hv, hw⟩
  · rfl
  · rw [hv.number?_eq_none, hw.number?_eq_none]

/-! ### Values of one order -/

theorem itemsSingle_iff : ItemsSingle items ↔ ∀ item ∈ items, item.SingleFields := by
  induction items with
  | nil => simp [ItemsSingle]
  | cons item items ih => rw [ItemsSingle, ih, List.forall_mem_cons]

theorem fieldsSingle_iff : FieldsSingle fields ↔ ∀ field ∈ fields, field.2.SingleFields := by
  induction fields with
  | nil => simp [FieldsSingle]
  | cons field fields ih => rw [FieldsSingle, ih, List.forall_mem_cons]

theorem Rearranges.eq_of_singleFields (h : Rearranges v w) (hv : v.SingleFields) : v = w := by
  induction h with
  | @fields as bs h =>
      cases as with
      | nil => rw [h.nil_eq]
      | cons field rest =>
          obtain rfl : rest = [] :=
            List.length_eq_zero_iff.1 (Nat.le_zero.1 (Nat.le_of_succ_le_succ hv.1))
          rw [List.singleton_perm.1 h]
  | item before after _ ih =>
      have hitems := itemsSingle_iff.1 hv
      simp only [List.forall_mem_append, List.forall_mem_cons] at hitems
      rw [ih hitems.2.1]
  | field name before after _ ih =>
      have hfields := fieldsSingle_iff.1 hv.2
      simp only [List.forall_mem_append, List.forall_mem_cons] at hfields
      rw [ih hfields.2.1]

/-- **A value without an object of two fields has one order.** -/
theorem Rearranged.eq_of_singleFields (h : v.Rearranged w) (hv : v.SingleFields) : v = w := by
  induction h with
  | refl => rfl
  | tail _ hstep ih => exact ih.trans (hstep.eq_of_singleFields (ih ▸ hv))

end Value

/-! ### Writing in any order -/

namespace Codec

open MessagePack

variable {c d : Codec} {key u v w : Value} {bytes one other : Bytes}

/-- The bytes are those of the value, with the fields of its objects in some order. -/
def Writes (c : Codec) (v : Value) (bytes : Bytes) : Prop :=
  ∃ w, v.Rearranged w ∧ c.encode w = .ok bytes

theorem FixedPoint.encode_of_holdsFields (h : v.HoldsFields) :
    FixedPoint.encode v = FixedPoint.tagged FixedPoint.tagPacked (pack v) := by
  rcases h.cases with ⟨item, items, rfl⟩ | ⟨fields, rfl⟩ <;> rfl

/-- What can be written can be written in any order. -/
theorem exists_encode_of_rearranged (h : v.Rearranged w) (hv : c.encode v = .ok bytes) :
    ∃ again, c.encode w = .ok again := by
  rcases h.eq_or_holdsFields with rfl | ⟨hholds, -⟩
  · exact ⟨bytes, hv⟩
  · cases c with
    | fixedPoint => exact ⟨_, rfl⟩
    | packed => exact ⟨_, rfl⟩
    | long =>
        obtain ⟨n, hn, -⟩ := LongWord.encode_eq_ok hv
        rcases hholds.cases with ⟨item, items, rfl⟩ | ⟨fields, rfl⟩ <;> cases hn

theorem Announces.rearranged (h : c.Announces v) (hw : v.Rearranged w) : c.Announces w := by
  rcases hw.eq_or_holdsFields with rfl | ⟨hholds, -⟩
  · exact h
  · cases c with
    | long => trivial
    | packed => exact hw.fits h
    | fixedPoint =>
        have hv : v.Fits := by
          rcases hholds.cases with ⟨item, items, rfl⟩ | ⟨fields, rfl⟩ <;> exact h
        exact announces_of_fits (hw.fits hv)

/-- What holds an object is packed as a map of one entry, in more than eight bytes. -/
theorem exists_pack (h : v.HoldsFields) : ∃ rest, pack v = 0x81 :: rest ∧ 8 ≤ rest.length := by
  have hentry : ∀ kind content, (entry kind content).write =
      0x81 :: ((Doc.text (Bytes.ofText kind)).write ++ content.write) := by
    intro kind content
    simp only [entry, Doc.write, writeEntries, List.append_nil]
    rfl
  rcases h.cases with ⟨item, items, rfl⟩ | ⟨fields, rfl⟩
  · refine ⟨_, hentry _ _, ?_⟩
    have hkind : (Doc.text (Bytes.ofText "Array")).write.length = 6 := rfl
    have hhead := length_containerHead_pos (toDocs (item :: items)).length 0x90 0xdc
    have hitems := length_le_writeItems (toDocs (item :: items))
    rw [length_toDocs, List.length_cons] at hitems
    rw [List.length_append, hkind, Doc.write, List.length_append]
    omega
  · refine ⟨_, hentry _ _, ?_⟩
    have hkind : (Doc.text (Bytes.ofText "Object")).write.length = 7 := rfl
    have hcontent := (Doc.map (toEntries fields)).length_write_pos
    rw [List.length_append, hkind]
    omega

/-! ### Reading by any codec -/

theorem LongWord.decode_eq_error (h : bytes.length ≠ 8) :
    LongWord.decode bytes = .error (.truncated 8 bytes.length) := by
  rw [LongWord.decode, LongWord.read, if_neg h]
  rfl

/-- Behind a version byte the packed format sees the number zero, which is the first kind. -/
theorem unpack?_tagged (tag : UInt8) (payload : Bytes) :
    unpack? (FixedPoint.tagged tag payload) = some .null := rfl

/-- A value that holds an object and that codecs read as it is, unless it nests too deep. -/
structure Legible (v : Value) : Prop where
  holds : v.HoldsFields
  fits : v.Fits
  namesDistinct : v.NamesDistinct

/-- What was read and holds an object was packed. -/
theorem legible_of_decode (h : c.decode bytes = .ok v) (hholds : v.HoldsFields) : Legible v := by
  refine ⟨hholds, ?_, namesDistinct_of_decode h⟩
  rcases decode_cases h with ⟨n, rfl⟩ | ⟨x, rfl⟩ | ⟨s, rfl⟩ | ⟨b, rfl⟩ | ⟨payload, hpayload⟩
  · trivial
  · trivial
  · rcases hholds.cases with ⟨item, items, hv⟩ | ⟨fields, hv⟩ <;> cases hv
  · rcases hholds.cases with ⟨item, items, hv⟩ | ⟨fields, hv⟩ <;> cases hv
  · exact fits_of_unpack? hpayload

theorem Legible.rearranged (h : Legible v) (hw : v.Rearranged w) (hholds : w.HoldsFields) :
    Legible w :=
  ⟨hholds, hw.fits h.fits, hw.namesDistinct h.namesDistinct⟩

/-- **What is read of a value that holds an object**: the value, by the codec that wrote it and if
it does not nest too deep, or the first kind of all, by a codec that takes the version for a
number. -/
theorem Legible.decode_iff (h : Legible v) (hencode : c.encode v = .ok bytes) :
    d.decode bytes = .ok u ↔
      (d = c ∧ v.depth ≤ depthLimit ∧ u = v) ∨ (c = .fixedPoint ∧ d = .packed ∧ u = .null) := by
  have hback : packed.decode (pack v) = .ok u ↔ v.depth ≤ depthLimit ∧ u = v := by
    rw [decode_pack h.namesDistinct h.fits, givenBack]
    split
    · next hdepth => simp [hdepth, eq_comm]
    · next hdepth => simp [hdepth]
  obtain ⟨rest, hpack, hlength⟩ := exists_pack h.holds
  cases c with
  | long =>
      obtain ⟨n, hn, -⟩ := LongWord.encode_eq_ok hencode
      rcases h.holds.cases with ⟨item, items, rfl⟩ | ⟨fields, rfl⟩ <;> cases hn
  | packed =>
      obtain rfl : pack v = bytes := Except.ok.inj hencode
      cases d with
      | packed => simp [hback]
      | fixedPoint =>
          rw [hpack]
          cases rest <;> simp [decode, FixedPoint.decode, FixedPoint.version]
      | long =>
          rw [decode, LongWord.decode_eq_error (by rw [hpack, List.length_cons]; omega)]
          simp
  | fixedPoint =>
      obtain rfl : FixedPoint.encode v = bytes := Except.ok.inj hencode
      rw [FixedPoint.encode_of_holdsFields h.holds]
      cases d with
      | fixedPoint =>
          rw [decode, FixedPoint.decode_packed, hback]
          simp
      | packed => simp [decode, unpack?_tagged, eq_comm]
      | long =>
          rw [decode, LongWord.decode_eq_error (by simp [FixedPoint.tagged, hpack]; omega)]
          simp

/-- Two ways to write a value that was read are the same, or they write two orders of it. -/
theorem Writes.eq_or (hkey : d.decode bytes = .ok key) (h : c.Writes key one)
    (h' : c.Writes key other) :
    one = other ∨ ∃ v w, v.Rearranged w ∧ Legible v ∧ Legible w ∧
      c.encode v = .ok one ∧ c.encode w = .ok other := by
  obtain ⟨v, hv, hone⟩ := h
  obtain ⟨w, hw, hother⟩ := h'
  have hvw : v.Rearranged w := hv.symm.trans hw
  rcases hvw.eq_or_holdsFields with rfl | ⟨hholds, hholds'⟩
  · exact Or.inl (Except.ok.inj (hone.symm.trans hother))
  · have hkeyHolds : key.HoldsFields := by
      rcases hv.eq_or_holdsFields with rfl | ⟨hkeyHolds, -⟩
      · exact hholds
      · exact hkeyHolds
    have hlegible := legible_of_decode hkey hkeyHolds
    exact Or.inr ⟨v, w, hvw, hlegible.rearranged hv hholds, hlegible.rearranged hw hholds', hone,
      hother⟩

/-- **Bytes of one value are read alike**, by any codec. -/
theorem Writes.decode (hkey : d.decode bytes = .ok key) (h : c.Writes key one)
    (h' : c.Writes key other) {reader : Codec} (hread : reader.decode one = .ok u) :
    ∃ u', reader.decode other = .ok u' ∧ u.Rearranged u' := by
  rcases h.eq_or hkey h' with rfl | ⟨v, w, hvw, hv, hw, hone, hother⟩
  · exact ⟨u, hread, .refl⟩
  · rcases (hv.decode_iff hone).1 hread with ⟨rfl, hdepth, rfl⟩ | ⟨hc, hreader, rfl⟩
    · exact ⟨w, (hw.decode_iff hother).2 (Or.inl ⟨rfl, hvw.depth_eq ▸ hdepth, rfl⟩), hvw⟩
    · exact ⟨.null, (hw.decode_iff hother).2 (Or.inr ⟨hc, hreader, rfl⟩), .refl⟩

/-- There is one way to write a value that has one order. -/
theorem Writes.eq_of_singleFields (hkey : key.SingleFields) (h : c.Writes key one)
    (h' : c.Writes key other) : one = other := by
  obtain ⟨v, hv, hone⟩ := h
  obtain ⟨w, hw, hother⟩ := h'
  obtain rfl := hv.eq_of_singleFields hkey
  obtain rfl := hw.eq_of_singleFields hkey
  exact Except.ok.inj (hone.symm.trans hother)

end Codec

end Strata
