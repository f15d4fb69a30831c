/-
**Values are read back as they were written.**

The packed codec takes values of every kind, nested in any way, and gives each of them back: the
same integers, the same doubles bit for bit, the fields of every object in their places.  It gives
back nothing of a value that nests deeper than arrays and maps may nest for its reader.  The codec
for numbers, texts and bytes packs what it has no order for, so it gives back all but the doubles
that it cuts in two words.

* `Value.merged_of_namesDistinct` — objects whose fields have names of their own are finite maps;
* `Codec.decode_pack` — the packed codec;
* `Codec.FixedPoint.decode_encode_of_not_inRange` — the codec for numbers, texts and bytes;
* `Codec.decode_encode` — **both**.
-/

import Strata.Proofs.Codec.FixedPointStable
import Strata.Proofs.Value.Hash

set_option relaxedAutoImplicit false
set_option autoImplicit false

namespace Strata

/-! ### Objects as finite maps -/

namespace Value

/-- Fields with names of their own are put behind those before them. -/
theorem foldl_setField_of_nodup {known fields : List (String × Value)}
    (h : ((known ++ fields).map Prod.fst).Nodup) :
    fields.foldl (fun known field => setField field.1 field.2 known) known = known ++ fields := by
  induction fields generalizing known with
  | nil => exact (List.append_nil known).symm
  | cons field fields ih =>
      have hsplit : known ++ field :: fields = (known ++ [field]) ++ fields := by simp
      have hnew : field.1 ∉ known.map Prod.fst := by
        rw [List.map_append, List.nodup_append] at h
        intro hmem
        exact h.2.2 _ hmem _ (List.mem_cons_self ..) rfl
      rw [List.foldl_cons, setField_of_not_mem hnew, ih (hsplit ▸ h), ← hsplit]

theorem ofFields_of_nodup {fields : List (String × Value)} (h : (fields.map Prod.fst).Nodup) :
    ofFields fields = .object fields := by
  have hall : fields.foldl (fun known field => setField field.1 field.2 known) [] = [] ++ fields :=
    foldl_setField_of_nodup h
  rw [ofFields, hall, List.nil_append]

mutual

/-- **There is nothing to merge** where the fields of every object have names of their own. -/
theorem merged_of_namesDistinct (v : Value) (h : v.NamesDistinct) : v.merged = v :=
  match v, h with
  | .null, _ | .bool _, _ | .int _, _ | .float _, _ | .text _, _ | .bytes _, _ => rfl
  | .array items, h => by rw [merged, mergedItems_of_itemsDistinct items h]
  | .object fields, h => by
      rw [merged, mergedFields_of_fieldsDistinct fields h.2, ofFields_of_nodup h.1]

theorem mergedItems_of_itemsDistinct (items : List Value) (h : ItemsDistinct items) :
    mergedItems items = items :=
  match items, h with
  | [], _ => rfl
  | item :: items, h => by
      rw [mergedItems, merged_of_namesDistinct item h.1, mergedItems_of_itemsDistinct items h.2]

theorem mergedFields_of_fieldsDistinct (fields : List (String × Value))
    (h : FieldsDistinct fields) :
    mergedFields fields = fields :=
  match fields, h with
  | [], _ => rfl
  | (_, v) :: fields, h => by
      rw [mergedFields, merged_of_namesDistinct v h.1, mergedFields_of_fieldsDistinct fields h.2]

end

end Value

/-! ### The two codecs -/

namespace Codec

variable {v : Value}

/-- What is read back of a value that nests to some depth. -/
def givenBack (v : Value) : Except CodecError Value :=
  if v.depth ≤ depthLimit then .ok v else .error .malformed

theorem givenBack_of_shallow (h : v.depth ≤ 1) : givenBack v = .ok v := if_pos (h.trans (by decide))

/-- **The packed codec gives back what it was given.** -/
theorem decode_pack (hnames : v.NamesDistinct) (hfits : v.Fits) :
    packed.decode (pack v) = givenBack v := by
  rw [decode, unpack?_pack hfits, v.merged_of_namesDistinct hnames, givenBack]
  by_cases hdepth : v.depth ≤ depthLimit
  · rw [if_pos hdepth, if_pos hdepth]
  · rw [if_neg hdepth, if_neg hdepth]

/-- **So does the codec for numbers, texts and bytes**, but for the doubles that it cuts in two
words. -/
theorem FixedPoint.decode_encode_of_not_inRange (hnames : v.NamesDistinct) (hfits : v.Fits)
    (hfloat : ∀ x, v = .float x → ¬ InRange x) : decode (encode v) = givenBack v := by
  cases v with
  | text s => rw [encode, decode_text, givenBack_of_shallow (Nat.zero_le _)]
  | int n => rw [decode_encode_int, givenBack_of_shallow (Nat.zero_le _)]
  | bytes b =>
      rw [givenBack_of_shallow le_rfl]
      rfl
  | float x =>
      have hrange : ¬ inRange x = true := mt inRange_iff.1 (hfloat x rfl)
      rw [encode, if_neg hrange, decode_packed, decode_pack hnames hfits]
  | null | bool | array | object =>
      rw [encode, decode_packed, decode_pack hnames hfits]
      all_goals simp

/-- **Values are read back as they were written.**  The value is of any kind and nests in any way,
the fields of its objects have names of their own, and its sizes have 32 bits.  Both codecs write
it.  The packed codec reads back this very value if it nests no deeper than the reader follows, and
refuses what it wrote otherwise; so does the other codec, unless the value is a double between
`-2 ^ 63` and `2 ^ 63`. -/
theorem decode_encode (v : Value) (hnames : v.NamesDistinct) (hfits : v.Fits) :
    (∃ bytes, packed.encode v = .ok bytes ∧ packed.decode bytes =
      if v.depth ≤ depthLimit then .ok v else .error .malformed) ∧
    ((∀ x, v = .float x → ¬ FixedPoint.InRange x) →
      ∃ bytes, fixedPoint.encode v = .ok bytes ∧ fixedPoint.decode bytes =
        if v.depth ≤ depthLimit then .ok v else .error .malformed) :=
  ⟨⟨pack v, rfl, decode_pack hnames hfits⟩,
    fun hfloat => ⟨FixedPoint.encode v, rfl,
      FixedPoint.decode_encode_of_not_inRange hnames hfits hfloat⟩⟩

/-- An object of an array, bytes and a text that spells the name of a kind. -/
theorem decode_encode_nested :
    let v : Value := .object [("a", .array [.null, .float (0 / 0), .text "Null", .int (-129)]),
      ("b", .bytes [0xff]), ("c", .object [])]
    (∃ bytes, packed.encode v = .ok bytes ∧ packed.decode bytes = .ok v) ∧
      ∃ bytes, fixedPoint.encode v = .ok bytes ∧ fixedPoint.decode bytes = .ok v := by
  intro v
  have hnames : v.NamesDistinct := by
    simp [v, Value.NamesDistinct, Value.FieldsDistinct, Value.ItemsDistinct]
  have hfits : v.Fits := by
    simp [v, Value.Fits, Value.FieldsFit, Value.ItemsFit]
    decide
  obtain ⟨⟨bytes, hencode, hdecode⟩, hordered⟩ := decode_encode v hnames hfits
  obtain ⟨bytes', hencode', hdecode'⟩ := hordered (by simp [v])
  have hdepth : v.depth ≤ depthLimit := by decide
  rw [if_pos hdepth] at hdecode hdecode'
  exact ⟨⟨bytes, hencode, hdecode⟩, bytes', hencode', hdecode'⟩

end Codec

end Strata
