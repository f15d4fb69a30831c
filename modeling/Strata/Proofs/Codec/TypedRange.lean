/-
**Ranges of keys of one type.**

A range is asked for by two values of one type: integers, texts or bytes.  It becomes a range of
byte strings, between the encodings of the two, and keys of every kind are tried against it.  The
tag of an encoding keeps the types apart, so that no key of another type lies in the range, except
that doubles share the tag of integers: those of the range of two words stand among the integers by
their numbers, and what is beyond them has the tag of packed values.

* `TypedRange`, `TypedRange.Holds` — two bounds of one type, and the values between them;
* `tagOf`, `exists_encode` — every encoding has a tag, which tells the type;
* `encode_float_lt_int_iff_lt` — doubles among the integers;
* `TypedRange.not_contains_of_tag` — no key of another type;
* `TypedRange.contains_encode_iff` — **the keys between the bounds are those of the values between
  them**;
* `TypedRange.isEmpty_keys`, `TypedRange.encode_low_le_high_iff` — when bounds have crossed.
-/

import Strata.Proofs.Codec.FixedPointOrder
import Strata.Proofs.KeyRange

set_option relaxedAutoImplicit false
set_option autoImplicit false

namespace Strata

open Number Codec.FixedPoint

/-! ### Bounds -/

/-- Two bounds of one type, the second of which is excluded. -/
inductive TypedRange where
  | ints (low high : Int64)
  | texts (low high : String)
  | bytes (low high : Bytes)

namespace TypedRange

def low : TypedRange → Value
  | ints low _ => .int low
  | texts low _ => .text low
  | bytes low _ => .bytes low

def high : TypedRange → Value
  | ints _ high => .int high
  | texts _ high => .text high
  | bytes _ high => .bytes high

/-- The tag of both bounds. -/
def tag : TypedRange → UInt8
  | ints _ _ => tagNumber
  | texts _ _ => tagText
  | bytes _ _ => tagBytes

/-- The byte strings between the encodings of the bounds. -/
def keys (r : TypedRange) : KeyRange :=
  KeyRange.halfOpen (some (encode r.low)) (some (encode r.high))

/-- The bounds have neither crossed nor met. -/
def Proper : TypedRange → Prop
  | ints low high => low < high
  | texts low high => Bytes.ofText low < Bytes.ofText high
  | bytes low high => low < high

/-- The bounds have not crossed. -/
def InOrder : TypedRange → Prop
  | ints low high => low ≤ high
  | texts low high => Bytes.ofText low ≤ Bytes.ofText high
  | bytes low high => low ≤ high

/-- **The value lies between the bounds.**  Integers and doubles are compared as numbers, texts and
bytes byte by byte; a value of another type lies between no bounds, and neither does a double beyond
the numbers of 64 bits. -/
def Holds : TypedRange → Value → Prop
  | ints low high, .int n => low ≤ n ∧ n < high
  | ints low high, .float x => InRange x ∧ low.toInt ≤ valueOf x ∧ valueOf x < high.toInt
  | texts low high, .text s =>
    Bytes.ofText low ≤ Bytes.ofText s ∧ Bytes.ofText s < Bytes.ofText high
  | bytes low high, .bytes b => low ≤ b ∧ b < high
  | _, _ => False

end TypedRange

/-! ### Tags -/

namespace Codec.FixedPoint

/-- The tag of the encoding of a value. -/
def tagOf : Value → UInt8
  | .text _ => tagText
  | .int _ => tagNumber
  | .float x => if inRange x then tagNumber else tagPacked
  | .bytes _ => tagBytes
  | _ => tagPacked

theorem exists_encode (v : Value) : ∃ payload, encode v = tagged (tagOf v) payload := by
  cases v with
  | float x =>
      by_cases h : inRange x = true
      · exact ⟨_, by rw [encode, tagOf, if_pos h, if_pos h, encodeFloat]⟩
      · exact ⟨_, by rw [encode, tagOf, if_neg h, if_neg h]⟩
  | _ => exact ⟨_, rfl⟩

/-- The tag of numbers is that of integers and of doubles of their range. -/
theorem int_or_float_of_tag {v : Value} (h : tagOf v = tagNumber) :
    (∃ n, v = .int n) ∨ ∃ x, v = .float x ∧ InRange x := by
  cases v with
  | int n => exact Or.inl ⟨n, rfl⟩
  | float x =>
      refine Or.inr ⟨x, rfl, ?_⟩
      rw [← inRange_iff]
      by_contra hno
      rw [tagOf, if_neg hno] at h
      exact absurd h (by decide)
  | _ => exact absurd h (by simp only [tagOf]; decide)

theorem text_of_tag {v : Value} (h : tagOf v = tagText) : ∃ s, v = .text s := by
  cases v with
  | text s => exact ⟨s, rfl⟩
  | float x =>
      rw [tagOf] at h
      split at h <;> exact absurd h (by decide)
  | _ => exact absurd h (by simp only [tagOf]; decide)

theorem bytes_of_tag {v : Value} (h : tagOf v = tagBytes) : ∃ b, v = .bytes b := by
  cases v with
  | bytes b => exact ⟨b, rfl⟩
  | float x =>
      rw [tagOf] at h
      split at h <;> exact absurd h (by decide)
  | _ => exact absurd h (by simp only [tagOf]; decide)

/-- **A double is before an integer** exactly if it is less. -/
theorem encode_float_lt_int_iff_lt {x : Float} (h : InRange x) (i : Int64) :
    encode (.float x) < encode (.int i) ↔ valueOf x < i.toInt := by
  -- the integer part is cut off at the greatest integer, which no integer is above
  have hi : i.toInt ≤ 2 ^ 63 - 1 := Int.le_sub_one_of_lt i.toInt_lt
  have hlt : min ⌊valueOf x⌋ (2 ^ 63 - 1) < i.toInt ↔ ⌊valueOf x⌋ < i.toInt := by omega
  rw [encode_float_lt_int_iff h, toInt_wholePart h, hlt, Int.floor_lt]

/-- Encodings of different tags are in the order of their tags. -/
theorem tagged_lt_tagged_of_ne {tag other : UInt8} (h : tag ≠ other) (a b : Bytes) :
    tagged tag a < tagged other b ↔ tag < other := by
  simp [tagged, List.cons_lt_cons_iff, h]

theorem tagged_le_tagged_iff {tag : UInt8} {a b : Bytes} :
    tagged tag a ≤ tagged tag b ↔ a ≤ b := by
  rw [← not_lt, tagged_lt_tagged_iff, not_lt]

end Codec.FixedPoint

namespace TypedRange

variable {key : Value}

theorem tagOf_low (r : TypedRange) : tagOf r.low = r.tag := by cases r <;> rfl

theorem tagOf_high (r : TypedRange) : tagOf r.high = r.tag := by cases r <;> rfl

/-- What lies between the bounds has their tag. -/
theorem Holds.tagOf_eq {r : TypedRange} (h : r.Holds key) : tagOf key = r.tag := by
  cases r with
  | ints low high =>
      cases key with
      | int n => rfl
      | float x => exact if_pos (inRange_iff.2 h.1)
      | _ => exact h.elim
  | texts low high =>
      cases key with
      | text s => rfl
      | _ => exact h.elim
  | bytes low high =>
      cases key with
      | bytes b => rfl
      | _ => exact h.elim

/-! ### The keys between the bounds -/

theorem contains_keys_iff (r : TypedRange) (bytes : Bytes) :
    r.keys.contains bytes = true ↔ encode r.low ≤ bytes ∧ bytes < encode r.high := by
  rw [keys, KeyRange.contains_halfOpen]
  simp

/-- **No key of another type lies between the bounds.** -/
theorem not_contains_of_tag {r : TypedRange} (h : tagOf key ≠ r.tag) :
    ¬ r.keys.contains (encode key) = true := by
  obtain ⟨low, hlow⟩ := exists_encode r.low
  obtain ⟨high, hhigh⟩ := exists_encode r.high
  obtain ⟨payload, hkey⟩ := exists_encode key
  rw [contains_keys_iff, hlow, hhigh, hkey, tagOf_low, tagOf_high, ← not_lt,
    tagged_lt_tagged_of_ne h, tagged_lt_tagged_of_ne h]
  exact fun hbetween => hbetween.1 hbetween.2

/-- Integers and doubles between two integers. -/
theorem contains_ints_iff {low high : Int64} (h : tagOf key = tagNumber) :
    (ints low high).keys.contains (encode key) = true ↔ (ints low high).Holds key := by
  rw [contains_keys_iff, ← not_lt]
  rcases int_or_float_of_tag h with ⟨n, rfl⟩ | ⟨x, rfl, hrange⟩
  · rw [TypedRange.low, TypedRange.high, encode_int_lt_int_iff, encode_int_lt_int_iff, not_lt]
    exact and_congr Int64.le_iff_toInt_le.symm Int64.lt_iff_toInt_lt.symm
  · rw [TypedRange.low, TypedRange.high, encode_float_lt_int_iff_lt hrange,
      encode_float_lt_int_iff_lt hrange, not_lt]
    exact (and_iff_right hrange).symm

/-- Texts between two texts. -/
theorem contains_texts_iff {low high : String} (h : tagOf key = tagText) :
    (texts low high).keys.contains (encode key) = true ↔ (texts low high).Holds key := by
  obtain ⟨s, rfl⟩ := text_of_tag h
  rw [contains_keys_iff]
  exact and_congr tagged_le_tagged_iff tagged_lt_tagged_iff

/-- Bytes between two of bytes. -/
theorem contains_bytes_iff {low high : Bytes} (h : tagOf key = tagBytes) :
    (bytes low high).keys.contains (encode key) = true ↔ (bytes low high).Holds key := by
  obtain ⟨b, rfl⟩ := bytes_of_tag h
  rw [contains_keys_iff]
  exact and_congr tagged_le_tagged_iff tagged_lt_tagged_iff

/-- **The keys between the bounds are those of the values between them**, whatever the kind of the
value is. -/
theorem contains_encode_iff (r : TypedRange) (key : Value) :
    r.keys.contains (encode key) = true ↔ r.Holds key := by
  by_cases htag : tagOf key = r.tag
  · cases r with
    | ints low high => exact contains_ints_iff htag
    | texts low high => exact contains_texts_iff htag
    | bytes low high => exact contains_bytes_iff htag
  · exact iff_of_false (not_contains_of_tag htag) (mt Holds.tagOf_eq htag)

/-! ### Bounds that have crossed -/

theorem encode_low_lt_high_iff (r : TypedRange) : encode r.low < encode r.high ↔ r.Proper := by
  cases r with
  | ints low high => exact encode_int_lt_int_iff.trans Int64.lt_iff_toInt_lt.symm
  | texts low high => exact tagged_lt_tagged_iff
  | bytes low high => exact tagged_lt_tagged_iff

theorem encode_low_le_high_iff (r : TypedRange) : encode r.low ≤ encode r.high ↔ r.InOrder := by
  cases r with
  | ints low high =>
      show encode (.int low) ≤ encode (.int high) ↔ low ≤ high
      rw [← not_lt, encode_int_lt_int_iff, not_lt, Int64.le_iff_toInt_le]
  | texts low high => exact tagged_le_tagged_iff
  | bytes low high => exact tagged_le_tagged_iff

/-- **The range of byte strings is empty when the bounds have crossed or met.** -/
theorem isEmpty_keys (r : TypedRange) : r.keys.isEmpty = true ↔ ¬ r.Proper := by
  rw [← encode_low_lt_high_iff]
  simp [keys, KeyRange.halfOpen, KeyRange.isEmpty]

end TypedRange

end Strata
