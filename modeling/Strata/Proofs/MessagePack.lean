/-
**Documents are read back as they were written.**

A document is written as a head and what the head announces.  Reading is stated for bytes at the
front of any others, with any fuel that is at least twice their length: a byte string reads as a
document when, whatever stands behind it, the reader returns that document and what stands behind.
Heads come first, one lemma for every family of them; a container reads as its items do, by
induction on these; and then every document that fits the format reads as itself.

* `readHead_text`, `readHead_array`, `readHead_writeUnsigned`, … — heads;
* `Reads`, `reads_sized`, `reads_array`, `reads_map` — byte strings that read as a document;
* `Doc.Fits` — the sizes and numbers that the format can hold;
* `Doc.reads_write`, `Doc.read?_write` — **reading back**.
-/

import Strata.MessagePack
import Strata.Proofs.Bytes
import Strata.Proofs.Number.Exact

set_option relaxedAutoImplicit false
set_option autoImplicit false

namespace Strata.MessagePack

/-! ### Numbers behind heads -/

theorem takeBytes?_append {n : Nat} {front : Bytes} (h : front.length = n) (rest : Bytes) :
    takeBytes? n (front ++ rest) = some (front, rest) := by
  subst h
  simp [takeBytes?]

theorem takeNat?_ofNat (width n : Nat) (rest : Bytes) :
    takeNat? width (Bytes.ofNat width n ++ rest) = some (n % 256 ^ width, rest) := by
  rw [takeNat?, takeBytes?_append (Bytes.length_ofNat width n)]
  simp only [Option.map_some, Bytes.toNat_ofNat]

theorem numberHead_ofNat (width n : Nat) (head : Nat → Head) (rest : Bytes) :
    numberHead width head (Bytes.ofNat width n ++ rest) = some (head (n % 256 ^ width), rest) := by
  rw [numberHead, takeNat?_ofNat]
  rfl

/-- A number in half the range of a width is read back from its two's complement. -/
theorem ofTwosComplement_twosComplement {width : Nat} {n : Int}
    (hlow : -(256 ^ width / 2 : Nat) ≤ n) (hhigh : n < (256 ^ width / 2 : Nat)) :
    ofTwosComplement width ((n % (256 ^ width : Nat)).toNat % 256 ^ width) = n := by
  have hpos : 0 < 256 ^ width := Nat.pow_pos (by decide)
  rw [ofTwosComplement]
  generalize 256 ^ width = w at *
  have hmod : (n % (w : Int)).toNat % w = (n % (w : Int)).toNat := by
    refine Nat.mod_eq_of_lt ?_
    have := Int.emod_lt_of_pos n (by omega : (0 : Int) < w)
    have := Int.emod_nonneg n (by omega : (w : Int) ≠ 0)
    omega
  rw [hmod]
  by_cases hneg : n < 0
  · -- a negative number is read from the upper half
    have hshift : n % (w : Int) = n + w := by
      rw [← Int.add_emod_right, Int.emod_eq_of_lt (by omega) (by omega)]
    rw [hshift, if_neg (by omega)]
    omega
  · rw [Int.emod_eq_of_lt (by omega) (by omega), if_pos (by omega)]
    omega

/-! ### Heads -/

theorem readHead_small {byte : UInt8} (h : byte.toNat < 0x80) (rest : Bytes) :
    readHead (byte :: rest) = some (.whole (.unsigned byte.toNat), rest) := by
  rw [readHead]
  simp only [if_pos h]

theorem readHead_shortMap {byte : UInt8} {n : Nat} (h : byte.toNat = 0x80 + n) (hn : n < 16)
    (rest : Bytes) : readHead (byte :: rest) = some (.map n, rest) := by
  rw [readHead]
  simp only [h, if_neg (show ¬ 0x80 + n < 0x80 by omega), if_pos (show 0x80 + n < 0x90 by omega),
    Nat.add_sub_cancel_left]

theorem readHead_shortArray {byte : UInt8} {n : Nat} (h : byte.toNat = 0x90 + n) (hn : n < 16)
    (rest : Bytes) : readHead (byte :: rest) = some (.array n, rest) := by
  rw [readHead]
  simp only [h, if_neg (show ¬ 0x90 + n < 0x80 by omega), if_neg (show ¬ 0x90 + n < 0x90 by omega),
    if_pos (show 0x90 + n < 0xa0 by omega), Nat.add_sub_cancel_left]

theorem readHead_shortText {byte : UInt8} {n : Nat} (h : byte.toNat = 0xa0 + n) (hn : n < 32)
    (rest : Bytes) : readHead (byte :: rest) = some (.text n, rest) := by
  rw [readHead]
  simp only [h, if_neg (show ¬ 0xa0 + n < 0x80 by omega), if_neg (show ¬ 0xa0 + n < 0x90 by omega),
    if_neg (show ¬ 0xa0 + n < 0xa0 by omega), if_pos (show 0xa0 + n < 0xc0 by omega),
    Nat.add_sub_cancel_left]

theorem readHead_negative {byte : UInt8} (h : 0xe0 ≤ byte.toNat) (rest : Bytes) :
    readHead (byte :: rest) = some (.whole (.signed ((byte.toNat : Int) - 256)), rest) := by
  rw [readHead]
  simp only [if_neg (show ¬ byte.toNat < 0x80 by omega), if_neg (show ¬ byte.toNat < 0x90 by omega),
    if_neg (show ¬ byte.toNat < 0xa0 by omega), if_neg (show ¬ byte.toNat < 0xc0 by omega),
    if_pos h]

theorem toNat_add_ofNat {head : UInt8} {n : Nat} (h : head.toNat + n < 256) :
    (head + UInt8.ofNat n).toNat = head.toNat + n := by
  rw [UInt8.toNat_add, UInt8.toNat_ofNat']
  omega

variable {size : Nat} (rest : Bytes)

/-- A size is read back from the head of a sized document. -/
theorem readHead_sizedHead {head : Nat → Head} {shortHead one : UInt8} {shortLimit : Nat}
    (hshort : size < shortLimit →
      readHead ((shortHead + UInt8.ofNat size) :: rest) = some (head size, rest))
    (hone : ∀ input, readHead (one :: input) = numberHead 1 head input)
    (htwo : ∀ input, readHead ((one + 1) :: input) = numberHead 2 head input)
    (hfour : ∀ input, readHead ((one + 2) :: input) = numberHead 4 head input)
    (h : size < 2 ^ 32) :
    readHead (sizedHead size shortHead shortLimit one ++ rest) = some (head size, rest) := by
  unfold sizedHead
  split
  · next hsize => exact hshort hsize
  · split
    · rw [List.cons_append, hone, numberHead_ofNat, Nat.mod_eq_of_lt (by omega)]
    · split
      · rw [List.cons_append, htwo, numberHead_ofNat, Nat.mod_eq_of_lt (by omega)]
      · rw [List.cons_append, hfour, numberHead_ofNat, Nat.mod_eq_of_lt (by omega)]

/-- A size is read back from the head of a container. -/
theorem readHead_containerHead {head : Nat → Head} {shortHead two : UInt8}
    (hshort : size < 16 →
      readHead ((shortHead + UInt8.ofNat size) :: rest) = some (head size, rest))
    (htwo : ∀ input, readHead (two :: input) = numberHead 2 head input)
    (hfour : ∀ input, readHead ((two + 1) :: input) = numberHead 4 head input)
    (h : size < 2 ^ 32) :
    readHead (containerHead size shortHead two ++ rest) = some (head size, rest) := by
  unfold containerHead
  split
  · next hsize => exact hshort hsize
  · split
    · rw [List.cons_append, htwo, numberHead_ofNat, Nat.mod_eq_of_lt (by omega)]
    · rw [List.cons_append, hfour, numberHead_ofNat, Nat.mod_eq_of_lt (by omega)]

theorem readHead_text (h : size < 2 ^ 32) :
    readHead (sizedHead size 0xa0 32 0xd9 ++ rest) = some (.text size, rest) :=
  readHead_sizedHead rest
    (fun hsize => readHead_shortText (toNat_add_ofNat (by simp; omega)) hsize rest)
    (fun _ => rfl) (fun _ => rfl) (fun _ => rfl) h

theorem readHead_binary (h : size < 2 ^ 32) :
    readHead (sizedHead size 0 0 0xc4 ++ rest) = some (.binary size, rest) :=
  readHead_sizedHead rest (fun hsize => absurd hsize (Nat.not_lt_zero _))
    (fun _ => rfl) (fun _ => rfl) (fun _ => rfl) h

theorem readHead_extension (h : size < 2 ^ 32) :
    readHead (sizedHead size 0 0 0xc7 ++ rest) = some (.extension size, rest) :=
  readHead_sizedHead rest (fun hsize => absurd hsize (Nat.not_lt_zero _))
    (fun _ => rfl) (fun _ => rfl) (fun _ => rfl) h

theorem readHead_array (h : size < 2 ^ 32) :
    readHead (containerHead size 0x90 0xdc ++ rest) = some (.array size, rest) :=
  readHead_containerHead rest
    (fun hsize => readHead_shortArray (toNat_add_ofNat (by simp; omega)) hsize rest)
    (fun _ => rfl) (fun _ => rfl) h

theorem readHead_map (h : size < 2 ^ 32) :
    readHead (containerHead size 0x80 0xde ++ rest) = some (.map size, rest) :=
  readHead_containerHead rest
    (fun hsize => readHead_shortMap (toNat_add_ofNat (by simp; omega)) hsize rest)
    (fun _ => rfl) (fun _ => rfl) h

/-- An unsigned number is read back, reduced to the longest form. -/
theorem readHead_writeUnsigned (n : Nat) :
    readHead (writeUnsigned n ++ rest) = some (.whole (.unsigned (n % 2 ^ 64)), rest) := by
  unfold writeUnsigned
  split
  · next hn =>
    have hbyte : (UInt8.ofNat n).toNat = n := by
      rw [UInt8.toNat_ofNat']
      omega
    show readHead (UInt8.ofNat n :: rest) = _
    rw [readHead_small (by omega), hbyte, Nat.mod_eq_of_lt (by omega)]
  · split
    · next hn =>
      show numberHead 1 (fun n => .whole (.unsigned n)) (Bytes.ofNat 1 n ++ rest) = _
      rw [numberHead_ofNat, Nat.mod_eq_of_lt (by omega), Nat.mod_eq_of_lt (by omega)]
    · split
      · next hn =>
        show numberHead 2 (fun n => .whole (.unsigned n)) (Bytes.ofNat 2 n ++ rest) = _
        rw [numberHead_ofNat, Nat.mod_eq_of_lt (by omega), Nat.mod_eq_of_lt (by omega)]
      · split
        · next hn =>
          show numberHead 4 (fun n => .whole (.unsigned n)) (Bytes.ofNat 4 n ++ rest) = _
          rw [numberHead_ofNat, Nat.mod_eq_of_lt (by omega), Nat.mod_eq_of_lt (by omega)]
        · show numberHead 8 (fun n => .whole (.unsigned n)) (Bytes.ofNat 8 n ++ rest) = _
          rw [numberHead_ofNat, show 256 ^ 8 = 2 ^ 64 by norm_num]

/-- A signed number of 64 bits is read back. -/
theorem readHead_writeSigned {n : Int} (hlow : -2 ^ 63 ≤ n) (hhigh : n < 2 ^ 63) :
    readHead (writeSigned n ++ rest) = some (.whole (.signed n), rest) := by
  unfold writeSigned twosComplement
  split
  · next hn =>
    -- the byte itself is the head
    have hbyte : (UInt8.ofNat ((n % (256 ^ 1 : Nat)).toNat / 256 ^ 0)).toNat = (n + 256).toNat := by
      rw [UInt8.toNat_ofNat']
      omega
    show readHead (UInt8.ofNat ((n % (256 ^ 1 : Nat)).toNat / 256 ^ 0) :: rest) = _
    rw [readHead_negative (by omega), hbyte]
    simp only [Option.some.injEq, Prod.mk.injEq, Head.whole.injEq, Doc.signed.injEq, and_true]
    omega
  · split
    · next hn =>
      show numberHead 1 (fun n => .whole (.signed (ofTwosComplement 1 n)))
        (Bytes.ofNat 1 _ ++ rest) = _
      rw [numberHead_ofNat, ofTwosComplement_twosComplement (by omega) (by omega)]
    · split
      · next hn =>
        show numberHead 2 (fun n => .whole (.signed (ofTwosComplement 2 n)))
          (Bytes.ofNat 2 _ ++ rest) = _
        rw [numberHead_ofNat, ofTwosComplement_twosComplement (by omega) (by omega)]
      · split
        · next hn =>
          show numberHead 4 (fun n => .whole (.signed (ofTwosComplement 4 n)))
            (Bytes.ofNat 4 _ ++ rest) = _
          rw [numberHead_ofNat, ofTwosComplement_twosComplement (by omega) (by omega)]
        · show numberHead 8 (fun n => .whole (.signed (ofTwosComplement 8 n)))
            (Bytes.ofNat 8 _ ++ rest) = _
          rw [numberHead_ofNat, ofTwosComplement_twosComplement (by omega) (by omega)]

/-! ### Byte strings that read as a document -/

/-- Whatever stands behind the bytes, they read as the document. -/
def Reads (bytes : Bytes) (doc : Doc) : Prop :=
  ∀ fuel rest, 2 * bytes.length ≤ fuel + 1 → readWith fuel (bytes ++ rest) = some (doc, rest)

theorem length_sizedHead_pos (size : Nat) (shortHead : UInt8) (shortLimit : Nat) (one : UInt8) :
    0 < (sizedHead size shortHead shortLimit one).length := by
  unfold sizedHead
  repeat' split
  all_goals simp

theorem length_containerHead_pos (size : Nat) (shortHead two : UInt8) :
    0 < (containerHead size shortHead two).length := by
  unfold containerHead
  repeat' split
  all_goals simp

/-- Bytes of which there are some are read in one step at least. -/
theorem reads_of_step {bytes : Bytes} {doc : Doc} (hpos : 0 < bytes.length)
    (h : ∀ fuel rest, 2 * bytes.length ≤ fuel + 2 →
      readWith (fuel + 1) (bytes ++ rest) = some (doc, rest)) : Reads bytes doc := by
  intro fuel rest hfuel
  obtain ⟨fuel, rfl⟩ : ∃ n, fuel = n + 1 := ⟨fuel - 1, by omega⟩
  exact h fuel rest hfuel

/-- The head says it all. -/
theorem reads_of_whole {bytes : Bytes} {doc : Doc} (hpos : 0 < bytes.length)
    (h : ∀ rest, readHead (bytes ++ rest) = some (.whole doc, rest)) : Reads bytes doc := by
  refine reads_of_step hpos ?_
  intro fuel rest _
  rw [readWith, h]

/-- **A sized document reads as what is made of the bytes behind its head**, as many of them as the
head announces. -/
theorem reads_sized {content : Bytes} {found : Head} {f : Bytes → Doc} {size shortLimit : Nat}
    {shortHead one : UInt8}
    (hhead : ∀ rest, readHead (sizedHead size shortHead shortLimit one ++ rest) =
      some (found, rest))
    (htake : ∀ fuel input rest, readHead input = some (found, rest) →
      readWith (fuel + 1) input =
        (takeBytes? content.length rest).map fun taken => (f taken.1, taken.2)) :
    Reads (sizedHead size shortHead shortLimit one ++ content) (f content) := by
  have hpos := length_sizedHead_pos size shortHead shortLimit one
  refine reads_of_step (by rw [List.length_append]; omega) ?_
  intro fuel rest _
  rw [List.append_assoc, htake fuel _ _ (hhead _), takeBytes?_append rfl]
  rfl

theorem reads_text {bytes : Bytes} (h : bytes.length < 2 ^ 32) :
    Reads (sizedHead bytes.length 0xa0 32 0xd9 ++ bytes) (.text bytes) :=
  reads_sized (fun rest => readHead_text rest h) fun fuel input rest hread => by
    rw [readWith, hread]

theorem reads_binary {bytes : Bytes} (h : bytes.length < 2 ^ 32) :
    Reads (sizedHead bytes.length 0 0 0xc4 ++ bytes) (.binary bytes) :=
  reads_sized (fun rest => readHead_binary rest h) fun fuel input rest hread => by
    rw [readWith, hread]

/-- The first byte behind the head is the kind of the extension. -/
theorem reads_extension {kind : UInt8} {bytes : Bytes} (h : bytes.length < 2 ^ 32) :
    Reads (sizedHead bytes.length 0 0 0xc7 ++ kind :: bytes) (.extension kind bytes) :=
  reads_sized (f := fun content => .extension (content.headD 0) content.tail)
    (fun rest => readHead_extension rest h) fun fuel input rest hread => by
    rw [readWith, hread]
    rfl

theorem length_pos_of_reads {bytes : Bytes} {doc : Doc} (h : Reads bytes doc) :
    0 < bytes.length := by
  by_contra hzero
  obtain rfl : bytes = [] := List.length_eq_zero_iff.1 (by omega)
  have hnone := h 0 [] (by simp)
  rw [readWith] at hnone
  cases hnone

/-- Items are read one after the other. -/
theorem readItems_of_reads {chunks : List Bytes} {docs : List Doc}
    (h : List.Forall₂ Reads chunks docs) (known : List Doc) (fuel : Nat) (rest : Bytes)
    (hfuel : 2 * chunks.flatten.length ≤ fuel) :
    readItems fuel docs.length known (chunks.flatten ++ rest) =
      some (.array (known.reverse ++ docs), rest) := by
  -- every item has a byte at least, so the fuel lasts for one step more
  induction h generalizing known fuel with
  | nil => simp [readItems]
  | @cons chunk doc chunks docs hone _ ih =>
      have hpos := length_pos_of_reads hone
      rw [List.flatten_cons, List.length_append] at hfuel
      obtain ⟨fuel, rfl⟩ : ∃ n, fuel = n + 1 := ⟨fuel - 1, by omega⟩
      rw [List.length_cons, readItems, List.flatten_cons, List.append_assoc,
        hone fuel _ (by omega)]
      simp only [ih (doc :: known) fuel (by omega), List.reverse_cons, List.append_assoc,
        List.singleton_append]

/-- **An array reads as what its items read as.** -/
theorem reads_array {chunks : List Bytes} {docs : List Doc} (h : List.Forall₂ Reads chunks docs)
    (hsize : docs.length < 2 ^ 32) :
    Reads (containerHead docs.length 0x90 0xdc ++ chunks.flatten) (.array docs) := by
  have hhead := length_containerHead_pos docs.length 0x90 0xdc
  refine reads_of_step (by rw [List.length_append]; omega) ?_
  intro fuel rest hfuel
  rw [List.length_append] at hfuel
  rw [readWith, List.append_assoc, readHead_array _ hsize]
  exact readItems_of_reads h [] fuel rest (by omega)

/-- The bytes of an entry read as its key and its content. -/
def ReadsEntry (chunks : Bytes × Bytes) (entry : Doc × Doc) : Prop :=
  Reads chunks.1 entry.1 ∧ Reads chunks.2 entry.2

/-- The bytes of entries, one behind the other. -/
def joinEntries (chunks : List (Bytes × Bytes)) : Bytes := chunks.flatMap fun c => c.1 ++ c.2

theorem readEntries_of_reads {chunks : List (Bytes × Bytes)} {entries : List (Doc × Doc)}
    (h : List.Forall₂ ReadsEntry chunks entries) (known : List (Doc × Doc)) (fuel : Nat)
    (rest : Bytes) (hfuel : 2 * (joinEntries chunks).length ≤ fuel) :
    readEntries fuel entries.length known (joinEntries chunks ++ rest) =
      some (.map (known.reverse ++ entries), rest) := by
  induction h generalizing known fuel with
  | nil => simp [readEntries, joinEntries]
  | @cons chunk entry chunks entries hone _ ih =>
      obtain ⟨hkey, hcontent⟩ := hone
      have hpos := length_pos_of_reads hkey
      have hjoin : joinEntries (chunk :: chunks) = chunk.1 ++ (chunk.2 ++ joinEntries chunks) := by
        simp [joinEntries]
      rw [hjoin] at hfuel ⊢
      simp only [List.length_append] at hfuel
      obtain ⟨fuel, rfl⟩ : ∃ n, fuel = n + 1 := ⟨fuel - 1, by omega⟩
      rw [List.length_cons, readEntries, List.append_assoc, hkey fuel _ (by omega)]
      simp only [List.append_assoc, hcontent fuel _ (by omega : 2 * chunk.2.length ≤ fuel + 1),
        ih (entry :: known) fuel (by omega), List.reverse_cons, List.singleton_append]

/-- **A map reads as what its entries read as.** -/
theorem reads_map {chunks : List (Bytes × Bytes)} {entries : List (Doc × Doc)}
    (h : List.Forall₂ ReadsEntry chunks entries) (hsize : entries.length < 2 ^ 32) :
    Reads (containerHead entries.length 0x80 0xde ++ joinEntries chunks) (.map entries) := by
  have hhead := length_containerHead_pos entries.length 0x80 0xde
  refine reads_of_step (by rw [List.length_append]; omega) ?_
  intro fuel rest hfuel
  rw [List.length_append] at hfuel
  rw [readWith, List.append_assoc, readHead_map _ hsize]
  exact readEntries_of_reads h [] fuel rest (by omega)

/-! ### Documents -/

mutual

/-- The format can hold the document: sizes in 32 bits, whole numbers in 64. -/
def Doc.Fits : Doc → Prop
  | .unsigned n => n < 2 ^ 64
  | .signed n => -2 ^ 63 ≤ n ∧ n < 2 ^ 63
  | .text bytes | .binary bytes | .extension _ bytes => bytes.length < 2 ^ 32
  | .array items => items.length < 2 ^ 32 ∧ ItemsFit items
  | .map entries => entries.length < 2 ^ 32 ∧ EntriesFit entries
  | _ => True

/-- The format can hold every item. -/
def ItemsFit : List Doc → Prop
  | [] => True
  | item :: items => item.Fits ∧ ItemsFit items

/-- The format can hold every key and every content. -/
def EntriesFit : List (Doc × Doc) → Prop
  | [] => True
  | (key, content) :: entries => key.Fits ∧ content.Fits ∧ EntriesFit entries

end

theorem writeItems_eq (items : List Doc) : writeItems items = (items.map Doc.write).flatten := by
  induction items with
  | nil => rfl
  | cons item items ih => rw [writeItems, ih, List.map_cons, List.flatten_cons]

theorem writeEntries_eq (entries : List (Doc × Doc)) :
    writeEntries entries = joinEntries (entries.map fun e => (e.1.write, e.2.write)) := by
  induction entries with
  | nil => rfl
  | cons entry entries ih => simp [writeEntries, ih, joinEntries]

theorem reads_float (x : Float) : Reads (0xcb :: Bytes.ofWord x.toBits) (.float x) := by
  refine reads_of_whole (by simp) ?_
  intro rest
  show numberHead 8 (fun n => .whole (.float (Float.ofBits (UInt64.ofNat n))))
    (Bytes.ofNat 8 x.toBits.toNat ++ rest) = _
  have hlt : x.toBits.toNat < 256 ^ 8 := x.toBits.toNat_lt
  rw [numberHead_ofNat, Nat.mod_eq_of_lt hlt, UInt64.ofNat_toNat, Number.ofBits_toBits]

theorem reads_bool (b : Bool) : Reads [if b then 0xc3 else 0xc2] (.bool b) :=
  reads_of_whole (by simp) fun _ => by cases b <;> rfl

theorem reads_unsigned (n : Nat) : Reads (writeUnsigned n) (.unsigned (n % 2 ^ 64)) := by
  refine reads_of_whole ?_ fun rest => readHead_writeUnsigned rest n
  unfold writeUnsigned
  repeat' split
  all_goals simp

theorem reads_signed {n : Int} (hlow : -2 ^ 63 ≤ n) (hhigh : n < 2 ^ 63) :
    Reads (writeSigned n) (.signed n) := by
  refine reads_of_whole ?_ fun rest => readHead_writeSigned rest hlow hhigh
  unfold writeSigned twosComplement
  repeat' split
  all_goals simp

/-! ### Lengths -/

theorem Doc.length_write_pos (doc : Doc) : 0 < doc.write.length := by
  cases doc with
  | unsigned n => exact length_pos_of_reads (reads_unsigned n)
  | signed n =>
      rw [Doc.write]
      unfold writeSigned twosComplement
      repeat' split
      all_goals simp
  | text bytes | binary bytes | extension kind bytes =>
      rw [Doc.write, List.length_append]
      exact Nat.add_pos_left (length_sizedHead_pos ..) _
  | array items | map entries =>
      rw [Doc.write, List.length_append]
      exact Nat.add_pos_left (length_containerHead_pos ..) _
  | _ => simp [Doc.write]

theorem length_le_writeItems (items : List Doc) : items.length ≤ (writeItems items).length := by
  induction items with
  | nil => exact le_rfl
  | cons item items ih =>
      have := item.length_write_pos
      rw [writeItems, List.length_append, List.length_cons]
      omega

theorem length_le_writeEntries (entries : List (Doc × Doc)) :
    entries.length ≤ (writeEntries entries).length := by
  induction entries with
  | nil => exact le_rfl
  | cons entry entries ih =>
      have := entry.1.length_write_pos
      rw [writeEntries, List.length_append, List.length_append, List.length_cons]
      omega

theorem length_text_le (bytes : Bytes) : bytes.length ≤ (Doc.text bytes).write.length := by
  rw [Doc.write, List.length_append]
  omega

theorem length_writeItems_le (items : List Doc) :
    (writeItems items).length ≤ (Doc.array items).write.length := by
  rw [Doc.write, List.length_append]
  omega

theorem length_writeEntries_le (entries : List (Doc × Doc)) :
    (writeEntries entries).length ≤ (Doc.map entries).write.length := by
  rw [Doc.write, List.length_append]
  omega

/-! ### Reading back -/

mutual

/-- **Every document that fits reads as itself.** -/
theorem Doc.reads_write (doc : Doc) (h : doc.Fits) : Reads doc.write doc :=
  match doc, h with
  | .nil, _ => reads_of_whole (Nat.succ_pos 0) fun _ => rfl
  | .bool b, _ => reads_bool b
  | .unsigned n, h => by
      have hread := reads_unsigned n
      rwa [Nat.mod_eq_of_lt h] at hread
  | .signed _, h => reads_signed h.1 h.2
  | .float x, _ => reads_float x
  | .text _, h => reads_text h
  | .binary _, h => reads_binary h
  | .array items, h => by
      rw [Doc.write, writeItems_eq]
      exact reads_array (reads_writeItems items h.2) h.1
  | .map entries, h => by
      rw [Doc.write, writeEntries_eq]
      exact reads_map (reads_writeEntries entries h.2) h.1
  | .extension _ _, h => reads_extension h

theorem reads_writeItems (items : List Doc) (h : ItemsFit items) :
    List.Forall₂ Reads (items.map Doc.write) items :=
  match items, h with
  | [], _ => .nil
  | item :: items, h => .cons (item.reads_write h.1) (reads_writeItems items h.2)

theorem reads_writeEntries (entries : List (Doc × Doc)) (h : EntriesFit entries) :
    List.Forall₂ ReadsEntry (entries.map fun e => (e.1.write, e.2.write)) entries :=
  match entries, h with
  | [], _ => .nil
  | (key, content) :: entries, h =>
      .cons ⟨key.reads_write h.1, content.reads_write h.2.1⟩ (reads_writeEntries entries h.2.2)

end

theorem Doc.read?_of_reads {bytes : Bytes} {doc : Doc} (h : Reads bytes doc) (rest : Bytes) :
    Doc.read? (bytes ++ rest) = some (doc, rest) :=
  h _ rest (by rw [List.length_append]; omega)

/-- **A document is read back from the front of any bytes**, up to where it ends. -/
theorem Doc.read?_write {doc : Doc} (h : doc.Fits) (rest : Bytes) :
    Doc.read? (doc.write ++ rest) = some (doc, rest) :=
  Doc.read?_of_reads (doc.reads_write h) rest

end Strata.MessagePack
