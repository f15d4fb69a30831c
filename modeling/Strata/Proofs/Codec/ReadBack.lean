/-
**What was written can be read.**

A value that fits is read back from its packed form with the fields of every object as a finite map,
unless it nests too deep, and then it is not read at all.  What is read nests no deeper.  A codec
can announce the sizes in some values that do not fit the packed format, for it does not pack them;
and whatever it announces it reads back, unless it packs the value and the value nests too deep.

* `Value.Fits`, `Value.depth`, `Value.merged` — sizes, depth, and objects as finite maps;
* `Codec.unpack?_pack` — **packed values are read back**;
* `Codec.Announces` — the codec can announce every size in a value;
* `Codec.ReadsBack`, `Codec.readsBack_encode` — **what a codec reads of what it wrote**.
-/

import Strata.Codec
import Strata.Proofs.MessagePack

set_option relaxedAutoImplicit false
set_option autoImplicit false

namespace Strata

namespace Value

/-! ### Sizes and depth -/

mutual

/-- The format can hold the value: every text, every array and every object has a size in 32
bits. -/
def Fits : Value → Prop
  | .text s => (Bytes.ofText s).length < 2 ^ 32
  | .bytes b => b.length < 2 ^ 32
  | .array items => items.length < 2 ^ 32 ∧ ItemsFit items
  | .object fields => fields.length < 2 ^ 32 ∧ FieldsFit fields
  | _ => True

/-- The format can hold every item. -/
def ItemsFit : List Value → Prop
  | [] => True
  | item :: items => item.Fits ∧ ItemsFit items

/-- The format can hold every field and its name. -/
def FieldsFit : List (String × Value) → Prop
  | [] => True
  | (name, v) :: fields => (Bytes.ofText name).length < 2 ^ 32 ∧ v.Fits ∧ FieldsFit fields

end

mutual

/-- How deep arrays and maps nest when the value is packed; bytes are packed as an array. -/
def depth : Value → Nat
  | .bytes _ => 1
  | .array items => depthOfItems items + 1
  | .object fields => depthOfFields fields + 1
  | _ => 0

/-- The greatest depth of items. -/
def depthOfItems : List Value → Nat
  | [] => 0
  | item :: items => max item.depth (depthOfItems items)

/-- The greatest depth of fields. -/
def depthOfFields : List (String × Value) → Nat
  | [] => 0
  | (_, v) :: fields => max v.depth (depthOfFields fields)

end

mutual

/-- The value with the fields of every object as a finite map: of fields of one name the last. -/
def merged : Value → Value
  | .array items => .array (mergedItems items)
  | .object fields => ofFields (mergedFields fields)
  | v => v

/-- The items, each merged. -/
def mergedItems : List Value → List Value
  | [] => []
  | item :: items => item.merged :: mergedItems items

/-- The fields, each merged. -/
def mergedFields : List (String × Value) → List (String × Value)
  | [] => []
  | (name, v) :: fields => (name, v.merged) :: mergedFields fields

end

end Value

namespace Codec

open MessagePack

/-! ### Packing -/

theorem fits_ofInt64 (n : Int64) : (Doc.ofInt n.toInt).Fits := by
  have hlow : -2 ^ 63 ≤ n.toInt := n.le_toInt
  have hhigh : n.toInt < 2 ^ 63 := n.toInt_lt
  rw [Doc.ofInt]
  split
  · show n.toInt.toNat < 2 ^ 64
    omega
  · exact ⟨hlow, hhigh⟩

theorem fits_bytes (b : Bytes) : ItemsFit (b.map fun byte => .unsigned byte.toNat) := by
  induction b with
  | nil => trivial
  | cons byte b ih => exact ⟨byte.toNat_lt.trans (by decide), ih⟩

theorem length_toDocs (items : List Value) : (toDocs items).length = items.length := by
  induction items with
  | nil => rfl
  | cons item items ih => rw [toDocs, List.length_cons, ih, List.length_cons]

theorem length_toEntries (fields : List (String × Value)) :
    (toEntries fields).length = fields.length := by
  induction fields with
  | nil => rfl
  | cons field fields ih => rw [toEntries, List.length_cons, ih, List.length_cons]

theorem fits_entry {kind : String} {content : Doc} (hkind : (Bytes.ofText kind).length < 2 ^ 32)
    (h : content.Fits) : (entry kind content).Fits :=
  ⟨Nat.one_lt_two_pow (by decide), hkind, h, trivial⟩

mutual

/-- The document of a value that fits is one that fits. -/
theorem fits_toDoc (v : Value) (h : v.Fits) : (toDoc v).Fits :=
  match v, h with
  | .null, _ => show (Bytes.ofText "Null").length < 2 ^ 32 by decide
  | .bool _, _ => fits_entry (by decide) trivial
  | .int n, _ => fits_entry (by decide) (fits_ofInt64 n)
  | .float _, _ => fits_entry (by decide) trivial
  | .text _, h => fits_entry (by decide) h
  | .bytes b, h => fits_entry (by decide) ⟨by rwa [List.length_map], fits_bytes b⟩
  | .array items, h =>
      fits_entry (by decide) ⟨by rw [length_toDocs]; exact h.1, fits_toDocs items h.2⟩
  | .object fields, h =>
      fits_entry (by decide) ⟨by rw [length_toEntries]; exact h.1, fits_toEntries fields h.2⟩

theorem fits_toDocs (items : List Value) (h : Value.ItemsFit items) : ItemsFit (toDocs items) :=
  match items, h with
  | [], _ => trivial
  | item :: items, h => ⟨fits_toDoc item h.1, fits_toDocs items h.2⟩

theorem fits_toEntries (fields : List (String × Value)) (h : Value.FieldsFit fields) :
    EntriesFit (toEntries fields) :=
  match fields, h with
  | [], _ => trivial
  | (_, v) :: fields, h => ⟨h.1, fits_toDoc v h.2.1, fits_toEntries fields h.2.2⟩

end

theorem length_write_le_entry (kind : String) (content : Doc) :
    content.write.length ≤ (entry kind content).write.length := by
  simp only [entry, Doc.write, writeEntries, List.length_append]
  omega

mutual

/-- A value fits if its packed form is short enough. -/
theorem fits_of_length (v : Value) (h : (pack v).length < 2 ^ 32) : v.Fits :=
  match v, h with
  | .null, _ | .bool _, _ | .int _, _ | .float _, _ => trivial
  | .text s, h => (length_text_le _).trans_lt ((length_write_le_entry "String" _).trans_lt h)
  | .bytes b, h => by
      have hcontent := (length_write_le_entry "Bytes" _).trans_lt h
      have hitems := (length_writeItems_le _).trans_lt hcontent
      have hlength := (length_le_writeItems _).trans_lt hitems
      rwa [List.length_map] at hlength
  | .array items, h => by
      have hcontent := (length_write_le_entry "Array" _).trans_lt h
      have hitems := (length_writeItems_le _).trans_lt hcontent
      have hlength := (length_le_writeItems _).trans_lt hitems
      rw [length_toDocs] at hlength
      exact ⟨hlength, itemsFit_of_length items hitems⟩
  | .object fields, h => by
      have hcontent := (length_write_le_entry "Object" _).trans_lt h
      have hentries := (length_writeEntries_le _).trans_lt hcontent
      have hlength := (length_le_writeEntries _).trans_lt hentries
      rw [length_toEntries] at hlength
      exact ⟨hlength, fieldsFit_of_length fields hentries⟩

theorem itemsFit_of_length (items : List Value)
    (h : (writeItems (toDocs items)).length < 2 ^ 32) : Value.ItemsFit items :=
  match items, h with
  | [], _ => trivial
  | item :: items, h => by
      rw [toDocs, writeItems, List.length_append] at h
      exact ⟨fits_of_length item (by rw [pack]; omega), itemsFit_of_length items (by omega)⟩

theorem fieldsFit_of_length (fields : List (String × Value))
    (h : (writeEntries (toEntries fields)).length < 2 ^ 32) : Value.FieldsFit fields :=
  match fields, h with
  | [], _ => trivial
  | (name, v) :: fields, h => by
      have hname := length_text_le (Bytes.ofText name)
      rw [toEntries, writeEntries, List.length_append, List.length_append] at h
      exact ⟨by omega, fits_of_length v (by rw [pack]; omega),
        fieldsFit_of_length fields (by omega)⟩

end

/-! ### Reading back -/

theorem kind?_name {name : String} {kind : Kind} (h : (name, kind) ∈ kinds) :
    kind? (.text (Bytes.ofText name)) = some kind := by
  simp only [kinds, List.mem_cons, Prod.mk.injEq, List.not_mem_nil, or_false] at h
  rcases h with h | h | h | h | h | h | h | h <;> obtain ⟨rfl, rfl⟩ := h <;> rfl

/-- What a map of one entry from the name of a kind holds. -/
theorem ofDoc?_entry {name : String} (kind : Kind) (h : (name, kind) ∈ kinds) (depth : Nat)
    (content : Doc) : ofDoc? depth (entry name content) = ofContent? depth kind content := by
  rw [entry, ofDoc?, kind?_name h]

theorem ofContent?_int (depth : Nat) (n : Int64) :
    ofContent? depth .int (Doc.ofInt n.toInt) = some (.int n) := by
  have hlow : Number.leastInt64 ≤ n.toInt := n.le_toInt
  have hhigh : n.toInt ≤ Number.greatestInt64 := Int.lt_add_one_iff.1 n.toInt_lt
  have hinteger : integer? (Doc.ofInt n.toInt) = some n.toInt := by
    rw [Doc.ofInt]
    split
    · show some ((n.toInt.toNat : Nat) : Int) = _
      congr 1
      omega
    · rfl
  unfold ofContent?
  simp only [hinteger]
  rw [if_pos ⟨hlow, hhigh⟩, Int64.ofInt_toInt]

theorem mapM_byte? (b : Bytes) :
    (b.map fun byte => Doc.unsigned byte.toNat).mapM byte? = some b := by
  induction b with
  | nil => rfl
  | cons byte b ih =>
      have hlt : byte.toNat < 256 := byte.toNat_lt
      have hone : byte? (.unsigned byte.toNat) = some byte := by
        simp only [byte?, integer?]
        rw [if_pos (by omega)]
        simp
      rw [List.map_cons, List.mapM_cons, hone, ih]
      rfl

mutual

/-- The document of a value holds the value, unless it nests too deep. -/
theorem ofDoc?_toDoc (depth : Nat) (v : Value) :
    ofDoc? depth (toDoc v) = if v.depth ≤ depth then some v.merged else none :=
  match v with
  | .null => rfl
  | .bool b => by
      rw [toDoc, ofDoc?_entry .bool (by simp [kinds])]
      rfl
  | .int n => by
      rw [toDoc, ofDoc?_entry .int (by simp [kinds]), ofContent?_int]
      rfl
  | .float x => by
      rw [toDoc, ofDoc?_entry .float (by simp [kinds])]
      rfl
  | .text s => by
      rw [toDoc, ofDoc?_entry .text (by simp [kinds])]
      unfold ofContent?
      simp [textOf?, Value.depth, Value.merged]
  | .bytes b => by
      rw [toDoc, ofDoc?_entry .bytes (by simp [kinds])]
      -- bytes are packed as an array, which takes a level
      cases depth with
      | zero => rfl
      | succ depth =>
          unfold ofContent?
          rw [mapM_byte?]
          simp [Value.depth, Value.merged]
  | .array items => by
      rw [toDoc, ofDoc?_entry .array (by simp [kinds])]
      cases depth with
      | zero => rfl
      | succ depth =>
          unfold ofContent?
          rw [ofDocs?_toDocs]
          simp only [Value.depth, Nat.add_le_add_iff_right]
          split <;> rfl
  | .object fields => by
      rw [toDoc, ofDoc?_entry .object (by simp [kinds])]
      cases depth with
      | zero => rfl
      | succ depth =>
          unfold ofContent?
          rw [ofEntries?_toEntries]
          simp only [Value.depth, Nat.add_le_add_iff_right]
          split <;> rfl

theorem ofDocs?_toDocs (depth : Nat) (items : List Value) :
    ofDocs? depth (toDocs items) =
      if Value.depthOfItems items ≤ depth then some (Value.mergedItems items) else none :=
  match items with
  | [] => rfl
  | item :: items => by
      rw [toDocs, ofDocs?, ofDoc?_toDoc, ofDocs?_toDocs, Value.depthOfItems, Value.mergedItems]
      by_cases hitem : item.depth ≤ depth
      · by_cases hitems : Value.depthOfItems items ≤ depth <;> simp [hitem, hitems]
      · simp [hitem]

theorem ofEntries?_toEntries (depth : Nat) (fields : List (String × Value)) :
    ofEntries? depth (toEntries fields) =
      if Value.depthOfFields fields ≤ depth then some (Value.mergedFields fields) else none :=
  match fields with
  | [] => rfl
  | (name, v) :: fields => by
      rw [toEntries, ofEntries?, ofDoc?_toDoc, ofEntries?_toEntries, Value.depthOfFields,
        Value.mergedFields]
      by_cases hv : v.depth ≤ depth
      · by_cases hfields : Value.depthOfFields fields ≤ depth <;> simp [textOf?, hv, hfields]
      · simp [textOf?, hv]

end

/-- **A value that fits is read back from its packed form**, unless it nests too deep. -/
theorem unpack?_pack {v : Value} (h : v.Fits) :
    unpack? (pack v) = if v.depth ≤ depthLimit then some v.merged else none := by
  have hread := Doc.read?_write (fits_toDoc v h) []
  rw [List.append_nil] at hread
  rw [unpack?, pack, hread]
  exact ofDoc?_toDoc depthLimit v

end Codec

/-! ### Objects as finite maps -/

namespace Value

variable {name : String} {v w : Value} {fields known : List (String × Value)}

theorem length_setField_le : (setField name v fields).length ≤ fields.length + 1 := by
  induction fields with
  | nil => exact le_rfl
  | cons field fields ih =>
      rw [setField]
      split
      · exact Nat.le_succ _
      · exact Nat.succ_le_succ ih

theorem fieldsFit_setField (hname : (Bytes.ofText name).length < 2 ^ 32) (hv : v.Fits)
    (h : FieldsFit fields) : FieldsFit (setField name v fields) := by
  induction fields with
  | nil => exact ⟨hname, hv, trivial⟩
  | cons field fields ih =>
      rw [setField]
      split
      · exact ⟨hname, hv, h.2.2⟩
      · exact ⟨h.1, h.2.1, ih h.2.2⟩

theorem depth_setField_le :
    depthOfFields (setField name v fields) ≤ max v.depth (depthOfFields fields) := by
  induction fields with
  | nil => exact le_rfl
  | cons field fields ih =>
      rw [setField]
      split
      · simp only [depthOfFields]
        omega
      · simp only [depthOfFields]
        omega

/-- The fields, each put where it belongs among those before it. -/
theorem fieldsFit_foldl_setField (hknown : FieldsFit known) (h : FieldsFit fields) :
    let all := fields.foldl (fun known field => setField field.1 field.2 known) known
    all.length ≤ known.length + fields.length ∧ FieldsFit all := by
  induction fields generalizing known with
  | nil => exact ⟨le_rfl, hknown⟩
  | cons field fields ih =>
      obtain ⟨hname, hv, hfields⟩ := h
      obtain ⟨hlength, hfit⟩ := ih (fieldsFit_setField hname hv hknown) hfields
      have hone : (setField field.1 field.2 known).length ≤ known.length + 1 := length_setField_le
      refine ⟨?_, hfit⟩
      rw [List.foldl_cons, List.length_cons]
      omega

theorem depth_foldl_setField_le (known fields : List (String × Value)) :
    depthOfFields (fields.foldl (fun known field => setField field.1 field.2 known) known) ≤
      max (depthOfFields known) (depthOfFields fields) := by
  induction fields generalizing known with
  | nil => exact le_max_left _ _
  | cons field fields ih =>
      refine (ih (setField field.1 field.2 known)).trans ?_
      have hone : depthOfFields (setField field.1 field.2 known) ≤
          max field.2.depth (depthOfFields known) := depth_setField_le
      rw [depthOfFields]
      omega

/-- An object fits when its fields are put into a finite map. -/
theorem fits_ofFields (hsize : fields.length < 2 ^ 32) (h : FieldsFit fields) :
    (ofFields fields).Fits := by
  have hnone : FieldsFit [] := trivial
  obtain ⟨hlength, hfit⟩ := fieldsFit_foldl_setField hnone h
  rw [List.length_nil, Nat.zero_add] at hlength
  exact ⟨hlength.trans_lt hsize, hfit⟩

mutual

/-- **Merging makes nothing deeper.** -/
theorem depth_merged_le (v : Value) : v.merged.depth ≤ v.depth :=
  match v with
  | .null | .bool _ | .int _ | .float _ | .text _ | .bytes _ => le_rfl
  | .array items => Nat.succ_le_succ (depth_mergedItems_le items)
  | .object fields => by
      refine Nat.succ_le_succ ((depth_foldl_setField_le [] (mergedFields fields)).trans ?_)
      simpa [depthOfFields] using depth_mergedFields_le fields

theorem depth_mergedItems_le (items : List Value) :
    depthOfItems (mergedItems items) ≤ depthOfItems items :=
  match items with
  | [] => le_rfl
  | item :: items => max_le_max (depth_merged_le item) (depth_mergedItems_le items)

theorem depth_mergedFields_le (fields : List (String × Value)) :
    depthOfFields (mergedFields fields) ≤ depthOfFields fields :=
  match fields with
  | [] => le_rfl
  | (_, v) :: fields => max_le_max (depth_merged_le v) (depth_mergedFields_le fields)

end

end Value

/-! ### Codecs -/

namespace Codec

variable {v w : Value} {bytes : Bytes} {c : Codec}

/-- The codec can announce every size in the value. -/
def Announces : Codec → Value → Prop
  | .long, _ => True
  | .fixedPoint, .text _ | .fixedPoint, .bytes _ => True
  | _, v => v.Fits

theorem announces_of_fits (h : v.Fits) : c.Announces v := by
  cases c <;> cases v <;> first | exact h | trivial

/-- Either what was written of the value is read, as a value that nests no deeper than what can be
read, or the value nests too deep and is not read. -/
def ReadsBack (v : Value) (found : Except CodecError Value) : Prop :=
  (v.depth ≤ depthLimit ∧ ∃ w, w.depth ≤ depthLimit ∧ found = .ok w) ∨
    (depthLimit < v.depth ∧ found = .error .malformed)

/-- Whether what was written of a value is read hangs on its depth. -/
theorem ReadsBack.exists_iff {found : Except CodecError Value} (h : ReadsBack v found) :
    (∃ w, found = .ok w) ↔ v.depth ≤ depthLimit := by
  rcases h with ⟨hdepth, w, -, hfound⟩ | ⟨hdeep, hfound⟩
  · exact iff_of_true ⟨w, hfound⟩ hdepth
  · refine iff_of_false ?_ (not_le.2 hdeep)
    rintro ⟨w, hw⟩
    cases hw.symm.trans hfound

theorem ReadsBack.shallow (h : ReadsBack v (.ok w)) : w.depth ≤ depthLimit := by
  rcases h with ⟨-, w', hw', hfound⟩ | ⟨-, hfound⟩
  · exact Except.ok.inj hfound ▸ hw'
  · cases hfound

/-- What does not nest is read. -/
theorem readsBack_ok (hv : v.depth ≤ 1) (hw : w.depth ≤ 1) : ReadsBack v (.ok w) :=
  Or.inl ⟨hv.trans (by decide), w, hw.trans (by decide), rfl⟩

theorem readsBack_pack (h : v.Fits) : ReadsBack v (Codec.packed.decode (pack v)) := by
  rw [decode, unpack?_pack h]
  by_cases hdepth : v.depth ≤ depthLimit
  · rw [if_pos hdepth]
    exact Or.inl ⟨hdepth, _, v.depth_merged_le.trans hdepth, rfl⟩
  · rw [if_neg hdepth]
    exact Or.inr ⟨not_le.1 hdepth, rfl⟩

namespace LongWord

theorem read_write (n : Int64) : read (write n) = .ok n := by
  have hlength : (write n).length = 8 := Bytes.length_ofWord _
  rw [read, if_pos hlength, write, Bytes.toWord_ofWord]
  rfl

theorem decode_write (n : Int64) : decode (write n) = .ok (.int n) := by
  rw [decode, read_write]
  rfl

theorem encode_eq_ok (h : encode v = .ok bytes) : ∃ n, integer? v = some n ∧ write n = bytes := by
  rw [encode] at h
  split at h
  · next n hn => exact ⟨n, hn, Except.ok.inj h⟩
  · cases h

/-- Values that stand for an integer do not nest. -/
theorem depth_le_one {n : Int64} (h : integer? v = some n) : v.depth ≤ 1 := by
  cases v <;> first | exact Nat.zero_le _ | cases h

theorem decode_eq_ok (h : decode bytes = .ok w) : ∃ n, w = .int n := by
  rw [decode] at h
  cases hread : read bytes with
  | error e => simp [hread, Except.map] at h
  | ok n => exact ⟨n, by simpa [hread, Except.map] using h.symm⟩

end LongWord

namespace FixedPoint

theorem decode_encodeInt (n : Int64) :
    decode (encodeInt n) = .ok (.int (unbiased (biased n))) := by
  show decodeNumber (Bytes.ofWord (biased n)) = _
  rw [decodeNumber, if_pos (Bytes.length_ofWord _), Bytes.toWord_ofWord]

theorem decode_encodeFloat (x : Float) :
    decode (encodeFloat x) = .ok (.float (join (unbiased (biased (wholePart x)))
      (fractionPart x).toUInt64.toInt64)) := by
  show decodeNumber (Bytes.ofWord (biased (wholePart x)) ++
    Bytes.ofWord (fractionPart x).toUInt64) = _
  have hfirst := Bytes.length_ofWord (biased (wholePart x))
  rw [decodeNumber, if_neg (by simp), if_pos (by simp)]
  simp only [List.take_left' hfirst, List.drop_left' hfirst, Bytes.toWord_ofWord]

theorem decode_text (s : String) :
    decode (tagged tagText (Bytes.ofText s)) = .ok (.text s) := by
  show decodePayload tagText (Bytes.ofText s) = _
  rw [decodePayload, if_neg (by decide), if_neg (by decide), if_neg (by decide), if_pos rfl,
    Bytes.text?_ofText]

theorem decode_packed (payload : Bytes) :
    decode (tagged tagPacked payload) = Codec.packed.decode payload := by
  show decodePayload tagPacked payload = _
  rw [decodePayload, if_neg (by decide), if_neg (by decide), if_pos rfl]
  rfl

theorem readsBack_encode (h : Codec.fixedPoint.Announces v) :
    ReadsBack v (decode (encode v)) := by
  cases v with
  | text s =>
      rw [encode, decode_text]
      exact readsBack_ok (Nat.zero_le _) (Nat.zero_le _)
  | bytes b => exact readsBack_ok (w := .bytes b) le_rfl le_rfl
  | int n =>
      rw [encode, decode_encodeInt]
      exact readsBack_ok (Nat.zero_le _) (Nat.zero_le _)
  | float x =>
      rw [encode]
      split
      · rw [decode_encodeFloat]
        exact readsBack_ok (Nat.zero_le _) (Nat.zero_le _)
      · exact decode_packed _ ▸ readsBack_pack h
  | _ => exact decode_packed _ ▸ readsBack_pack h

theorem fits_of_length (v : Value) (h : (encode v).length < 2 ^ 32) : v.Fits := by
  have htail : ∀ tag payload, (tagged tag payload).length < 2 ^ 32 → payload.length < 2 ^ 32 := by
    intro tag payload hlength
    simp only [tagged, List.length_cons] at hlength
    omega
  cases v with
  | text s => exact htail _ _ h
  | bytes b => exact htail _ _ h
  | int n => trivial
  | float x => trivial
  | _ => exact Codec.fits_of_length _ (htail _ _ h)

end FixedPoint

/-- **What a codec wrote of a value is read, unless the value nests too deep.** -/
theorem readsBack_encode (h : c.Announces v) (hencode : c.encode v = .ok bytes) :
    ReadsBack v (c.decode bytes) := by
  cases c with
  | fixedPoint =>
      obtain rfl : FixedPoint.encode v = bytes := Except.ok.inj hencode
      exact FixedPoint.readsBack_encode h
  | packed =>
      obtain rfl : pack v = bytes := Except.ok.inj hencode
      exact readsBack_pack h
  | long =>
      obtain ⟨n, hn, rfl⟩ := LongWord.encode_eq_ok hencode
      rw [decode, LongWord.decode_write]
      exact readsBack_ok (LongWord.depth_le_one hn) (Nat.zero_le _)

/-- Short bytes announce every size. -/
theorem announces_of_length (hlength : bytes.length < 2 ^ 32) (hencode : c.encode v = .ok bytes) :
    c.Announces v := by
  cases c with
  | fixedPoint =>
      obtain rfl : FixedPoint.encode v = bytes := Except.ok.inj hencode
      exact announces_of_fits (FixedPoint.fits_of_length v hlength)
  | packed =>
      obtain rfl : pack v = bytes := Except.ok.inj hencode
      exact announces_of_fits (fits_of_length v hlength)
  | long => trivial

/-- What can be read can be written by the same codec. -/
theorem encode_of_decode (h : c.decode bytes = .ok w) : ∃ again, c.encode w = .ok again := by
  cases c with
  | fixedPoint => exact ⟨_, rfl⟩
  | packed => exact ⟨_, rfl⟩
  | long =>
      obtain ⟨n, rfl⟩ := LongWord.decode_eq_ok h
      exact ⟨_, rfl⟩

end Codec

end Strata
