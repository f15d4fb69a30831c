/-
**Values are read back from what a codec wrote, and written again.**

If no object in a value has two fields, the codec for packed values reads back the very value.  The
codec for integers reads back the integer that the value stands for, and that for numbers, texts and
bytes reads back the value itself or, of a double, the number that its two words name.  So the bytes
that are written of what was read are those that were read, apart from one byte string: that of the
doubles just below zero, which are read back as zero.

* `Value.SingleFields`, `Value.eq_of_equal` — values with no order of fields to lose, and their
  equality;
* `Codec.Encodes`, `Codec.Encodes.reads_cases` — what is read back of the bytes of a value;
* `Codec.LosesSign`, `Codec.Encodes.again_iff` — **where the bytes of a value are written again**;
* `Codec.Encodes.inj`, `Codec.Encodes.inj_of_equal` — different bytes are read back as different
  values.
-/

import Strata.Proofs.Codec.FixedPointStable

set_option relaxedAutoImplicit false
set_option autoImplicit false

namespace Strata

/-! ### Values without an order of fields -/

namespace Value

mutual

/-- No object in the value has two fields. -/
def SingleFields : Value → Prop
  | .array items => ItemsSingle items
  | .object fields => fields.length ≤ 1 ∧ FieldsSingle fields
  | _ => True

/-- No object in an item has two fields. -/
def ItemsSingle : List Value → Prop
  | [] => True
  | item :: items => item.SingleFields ∧ ItemsSingle items

/-- No object in a field has two fields. -/
def FieldsSingle : List (String × Value) → Prop
  | [] => True
  | (_, v) :: fields => v.SingleFields ∧ FieldsSingle fields

end

/-- One field is a finite map. -/
theorem ofFields_of_length {fields : List (String × Value)} (h : fields.length ≤ 1) :
    ofFields fields = .object fields := by
  cases fields with
  | nil => rfl
  | cons field rest =>
      obtain rfl : rest = [] := List.length_eq_zero_iff.1 (Nat.le_zero.1 (Nat.le_of_succ_le_succ h))
      rfl

mutual

/-- **There is nothing to merge** where no object has two fields. -/
theorem merged_of_singleFields (v : Value) (h : v.SingleFields) : v.merged = v :=
  match v, h with
  | .null, _ | .bool _, _ | .int _, _ | .float _, _ | .text _, _ | .bytes _, _ => rfl
  | .array items, h => by rw [merged, mergedItems_of_singleFields items h]
  | .object fields, h => by
      rw [merged, mergedFields_of_singleFields fields h.2, ofFields_of_length h.1]

theorem mergedItems_of_singleFields (items : List Value) (h : ItemsSingle items) :
    mergedItems items = items :=
  match items, h with
  | [], _ => rfl
  | item :: items, h => by
      rw [mergedItems, merged_of_singleFields item h.1, mergedItems_of_singleFields items h.2]

theorem mergedFields_of_singleFields (fields : List (String × Value)) (h : FieldsSingle fields) :
    mergedFields fields = fields :=
  match fields, h with
  | [], _ => rfl
  | (_, v) :: fields, h => by
      rw [mergedFields, merged_of_singleFields v h.1, mergedFields_of_singleFields fields h.2]

end

/-! ### Equality -/

mutual

/-- Every zero in the value is the one without a sign. -/
def PlainZeros : Value → Prop
  | .float x => (x == 0) = true → x = 0
  | .array items => ItemsPlain items
  | .object fields => FieldsPlain fields
  | _ => True

/-- Every zero in an item is the one without a sign. -/
def ItemsPlain : List Value → Prop
  | [] => True
  | item :: items => item.PlainZeros ∧ ItemsPlain items

/-- Every zero in a field is the one without a sign. -/
def FieldsPlain : List (String × Value) → Prop
  | [] => True
  | (_, v) :: fields => v.PlainZeros ∧ FieldsPlain fields

end

mutual

/-- **Equal values are the same** if there is no order of fields and no sign of zeros by which they
could differ. -/
theorem eq_of_equal (a b : Value) (hsingle : a.SingleFields) (ha : a.PlainZeros)
    (hb : b.PlainZeros) (h : equal a b = true) : a = b :=
  match a, b, hsingle, ha, hb, h with
  | .null, .null, _, _, _, _ => rfl
  | .bool _, .bool _, _, _, _, h => by rw [eq_of_beq h]
  | .int _, .int _, _, _, _, h => by rw [eq_of_beq h]
  | .text _, .text _, _, _, _, h => by rw [eq_of_beq h]
  | .bytes _, .bytes _, _, _, _, h => by rw [eq_of_beq h]
  | .float x, .float y, _, ha, hb, h => by
      rcases Number.eq_or_zeros_of_beq h with rfl | ⟨hx, hy⟩
      · rfl
      · rw [ha hx, hb hy]
  | .array as, .array bs, hsingle, ha, hb, h => by rw [eq_of_equalItems as bs hsingle ha hb h]
  | .object as, .object bs, hsingle, ha, hb, h => by
      rw [equal, Bool.and_eq_true, beq_iff_eq] at h
      rw [eq_of_fieldsWithin as bs hsingle.1 h.1 hsingle.2 ha hb h.2]

theorem eq_of_equalItems (as bs : List Value) (hsingle : ItemsSingle as) (ha : ItemsPlain as)
    (hb : ItemsPlain bs) (h : equalItems as bs = true) : as = bs :=
  match as, bs, hsingle, ha, hb, h with
  | [], [], _, _, _, _ => rfl
  | a :: as, b :: bs, hsingle, ha, hb, h => by
      rw [equalItems, Bool.and_eq_true] at h
      rw [eq_of_equal a b hsingle.1 ha.1 hb.1 h.1, eq_of_equalItems as bs hsingle.2 ha.2 hb.2 h.2]

theorem eq_of_fieldsWithin (as bs : List (String × Value)) (hone : as.length ≤ 1)
    (hlength : as.length = bs.length) (hsingle : FieldsSingle as) (ha : FieldsPlain as)
    (hb : FieldsPlain bs) (h : fieldsWithin as bs = true) : as = bs :=
  match as, bs, hone, hlength, hsingle, ha, hb, h with
  | [], [], _, _, _, _, _, _ => rfl
  | [(name, a)], [(other, b)], _, _, hsingle, ha, hb, h => by
      rw [fieldsWithin, Bool.and_eq_true, List.lookup_cons] at h
      by_cases hname : name = other
      · rw [hname, eq_of_equal a b hsingle.1 ha.1 hb.1 (by simpa [hname] using h.1)]
      · simp [beq_false_of_ne hname] at h

end

end Value

/-! ### What is read back -/

namespace Codec

variable {c : Codec} {v v' w w' : Value} {bytes bytes' : Bytes}

/-- The bytes of a value that has no order of fields, and no size that cannot be announced. -/
structure Encodes (c : Codec) (v : Value) (bytes : Bytes) : Prop where
  single : v.SingleFields
  announces : c.Announces v
  encode : c.encode v = .ok bytes

/-- The double is read back as zero. -/
def LosesSign : Codec → Value → Prop
  | .fixedPoint, .float x => FixedPoint.JustBelowZero x
  | _, _ => False

/-- What is read back of a packed value is the value. -/
theorem eq_of_decode_pack (hsingle : v.SingleFields) (hfits : v.Fits)
    (hdecode : packed.decode (pack v) = .ok w) : w = v := by
  rw [decode, unpack?_pack hfits, v.merged_of_singleFields hsingle] at hdecode
  by_cases hdepth : v.depth ≤ depthLimit
  · rw [if_pos hdepth] at hdecode
    exact (Except.ok.inj hdecode).symm
  · rw [if_neg hdepth] at hdecode
    cases hdecode

/-- What is read back of a double in range is the number that its two words name; of any other value
it is the value. -/
theorem FixedPoint.reads_cases (hsingle : v.SingleFields)
    (hannounces : Codec.fixedPoint.Announces v)
    (hdecode : FixedPoint.decode (FixedPoint.encode v) = .ok w) :
    (w = v ∧ ¬ Codec.fixedPoint.LosesSign v) ∨
      ∃ x, v = .float x ∧ FixedPoint.InRange x ∧ w = .float (FixedPoint.readBack x) := by
  cases v with
  | text s =>
      rw [FixedPoint.encode, FixedPoint.decode_text] at hdecode
      exact Or.inl ⟨(Except.ok.inj hdecode).symm, not_false⟩
  | bytes b => exact Or.inl ⟨(Except.ok.inj hdecode).symm, not_false⟩
  | int n =>
      rw [FixedPoint.decode_encode_int] at hdecode
      exact Or.inl ⟨(Except.ok.inj hdecode).symm, not_false⟩
  | float x =>
      by_cases hrange : FixedPoint.inRange x = true
      · have hx := FixedPoint.inRange_iff.1 hrange
        rw [FixedPoint.decode_encode_float hx] at hdecode
        exact Or.inr ⟨x, rfl, hx, (Except.ok.inj hdecode).symm⟩
      · -- doubles out of range are packed, and none of them is close to zero
        have hfar : ¬ FixedPoint.JustBelowZero x := by
          intro hzero
          exact hrange (FixedPoint.inRange_iff.2 hzero.inRange)
        rw [FixedPoint.encode, if_neg hrange, FixedPoint.decode_packed] at hdecode
        exact Or.inl ⟨eq_of_decode_pack hsingle hannounces hdecode, hfar⟩
  | null | bool | array | object =>
      rw [FixedPoint.encode, FixedPoint.decode_packed] at hdecode
      · exact Or.inl ⟨eq_of_decode_pack hsingle hannounces hdecode, not_false⟩
      all_goals simp

/-- **What is read back of the bytes of a value**: the value itself, the integer that it stands for,
or the number that two words name. -/
theorem Encodes.reads_cases (h : c.Encodes v bytes) (hdecode : c.decode bytes = .ok w) :
    (w = v ∧ ¬ c.LosesSign v) ∨ (c = .long ∧ ∃ n, w = .int n ∧ bytes = LongWord.write n) ∨
      c = .fixedPoint ∧ ∃ x, v = .float x ∧ FixedPoint.InRange x ∧
        w = .float (FixedPoint.readBack x) := by
  obtain ⟨hsingle, hannounces, hencode⟩ := h
  cases c with
  | fixedPoint =>
      obtain rfl : FixedPoint.encode v = bytes := Except.ok.inj hencode
      rcases FixedPoint.reads_cases hsingle hannounces hdecode with hsame | hdouble
      · exact Or.inl hsame
      · exact Or.inr (Or.inr ⟨rfl, hdouble⟩)
  | long =>
      obtain ⟨n, -, rfl⟩ := LongWord.encode_eq_ok hencode
      rw [decode, LongWord.decode_write] at hdecode
      exact Or.inr (Or.inl ⟨rfl, n, (Except.ok.inj hdecode).symm, rfl⟩)
  | packed =>
      obtain rfl : pack v = bytes := Except.ok.inj hencode
      exact Or.inl ⟨eq_of_decode_pack hsingle hannounces hdecode, not_false⟩

/-! ### Writing again -/

/-- **Where the bytes of a value are written again** of what is read of them: everywhere but for the
doubles just below zero. -/
theorem Encodes.again_iff (h : c.Encodes v bytes) (hdecode : c.decode bytes = .ok w) :
    c.encode w = .ok bytes ↔ ¬ c.LosesSign v := by
  rcases h.reads_cases hdecode with ⟨rfl, hkept⟩ | ⟨rfl, n, rfl, rfl⟩ | ⟨rfl, x, rfl, hx, rfl⟩
  · exact iff_of_true h.encode hkept
  · exact iff_of_true rfl not_false
  · obtain rfl : FixedPoint.encode (.float x) = bytes := Except.ok.inj h.encode
    rw [Codec.encode, Except.ok.injEq]
    exact FixedPoint.encode_readBack_iff hx

/-- The bytes that are not written again, and what is read of them. -/
theorem Encodes.lost (h : c.Encodes v bytes) (hlost : c.LosesSign v) :
    c = .fixedPoint ∧ bytes = FixedPoint.lost ∧ c.decode bytes = .ok (.float 0) := by
  rw [LosesSign.eq_def] at hlost
  split at hlost
  · next x =>
    have hbytes : FixedPoint.encode (.float x) = bytes := Except.ok.inj h.encode
    refine ⟨rfl, by rw [← hbytes, hlost.encode_eq], ?_⟩
    rw [decode, ← hbytes, FixedPoint.decode_encode_float hlost.inRange, hlost.readBack_eq]
  · cases hlost

/-- What is read back has no order of fields either. -/
theorem Encodes.single_of_decode (h : c.Encodes v bytes) (hdecode : c.decode bytes = .ok w) :
    w.SingleFields := by
  rcases h.reads_cases hdecode with ⟨rfl, -⟩ | ⟨-, n, rfl, -⟩ | ⟨-, x, -, -, rfl⟩
  · exact h.single
  · trivial
  · trivial

/-- **Different bytes are not read back as one value.** -/
theorem Encodes.inj (h : c.Encodes v bytes) (h' : c.Encodes v' bytes') (hkept : ¬ c.LosesSign v)
    (hkept' : ¬ c.LosesSign v') (hdecode : c.decode bytes = .ok w)
    (hdecode' : c.decode bytes' = .ok w) : bytes = bytes' := by
  have hagain := (h.again_iff hdecode).2 hkept
  rw [(h'.again_iff hdecode').2 hkept'] at hagain
  exact (Except.ok.inj hagain).symm

/-- Nor as equal values, if no zero in them has a sign. -/
theorem Encodes.inj_of_equal (h : c.Encodes v bytes) (h' : c.Encodes v' bytes')
    (hkept : ¬ c.LosesSign v) (hkept' : ¬ c.LosesSign v') (hdecode : c.decode bytes = .ok w)
    (hdecode' : c.decode bytes' = .ok w') (hequal : (w == w') = true) (hplain : w.PlainZeros)
    (hplain' : w'.PlainZeros) : bytes = bytes' := by
  obtain rfl := Value.eq_of_equal w w' (h.single_of_decode hdecode) hplain hplain' hequal
  exact h.inj h' hkept hkept' hdecode hdecode'

end Codec

end Strata
