/-
**Which integer a value is stored as.**

The codec of eight bytes takes integers, doubles and texts.  A double stands for its integer part in
the direction of zero, and a text for the decimal that it is when white space is left out around it.
What is written is the integer that the value stands for, and reading gives it back; values that
stand for none are refused.  Doubles beyond 64 bits are the exception: each of them is stored as the
integer of 64 bits that comes nearest to it.

* `Denotes` — the integer that a value stands for;
* `Exceeds` — the doubles that stand for an integer beyond 64 bits;
* `integer?_eq_some_iff`, `encode_of_exceeds` — **what is written**, and the exception;
* `encode_denotes` — both, with what is refused and what is read back.
-/

import Strata.Proofs.Codec.ReadBack
import Strata.Proofs.Number.Parts
import Strata.Proofs.Number.ReadInteger

set_option relaxedAutoImplicit false
set_option autoImplicit false

namespace Strata.Codec.LongWord

open Number

/-! ### The integer of a value -/

/-- The integer that a value stands for, however great it is. -/
inductive Denotes : Value → ℤ → Prop
  | int (n : Int64) : Denotes (.int n) n.toInt
  | float {x : Float} : IsFinite x → Denotes (.float x) (towardZero (valueOf x))
  | text {s : String} {front middle back : List Char} {n : ℤ} :
      (∀ c ∈ front, Text.isBlank c = true) → (∀ c ∈ back, Text.isBlank c = true) →
      s.toList = front ++ middle ++ back → Spells middle n → Denotes (.text s) n

/-- The value is a double that stands for an integer beyond 64 bits. -/
def Exceeds (v : Value) : Prop :=
  ∃ x, v = .float x ∧ IsFinite x ∧
    ¬ (leastInt64 ≤ towardZero (valueOf x) ∧ towardZero (valueOf x) ≤ greatestInt64)

variable {v : Value} {x : Float} {s : String}

theorem denotes_int_iff {n : Int64} {i : ℤ} : Denotes (.int n) i ↔ i = n.toInt := by
  constructor
  · rintro ⟨⟩
    rfl
  · rintro rfl
    exact .int n

theorem denotes_float_iff {i : ℤ} :
    Denotes (.float x) i ↔ IsFinite x ∧ i = towardZero (valueOf x) := by
  constructor
  · rintro ⟨⟩
    exact ⟨‹_›, rfl⟩
  · rintro ⟨hx, rfl⟩
    exact .float hx

/-- A text stands for the integer that is left when white space is cut off. -/
theorem denotes_text_iff {i : ℤ} : Denotes (.text s) i ↔ Spells (Text.trim s.toList) i := by
  constructor
  · rintro ⟨⟩
    next front middle back hfront hback hs hmiddle =>
      rwa [hs, trim_append hfront hback hmiddle.ne_nil hmiddle.not_isBlank]
  · intro h
    obtain ⟨front, back, hfront, hback, hs⟩ := exists_trim s.toList
    exact .text hfront hback hs h

/-- A value stands for one integer at most. -/
theorem Denotes.unique {i j : ℤ} (hi : Denotes v i) (hj : Denotes v j) : i = j := by
  cases v with
  | int n => rw [denotes_int_iff.1 hi, denotes_int_iff.1 hj]
  | float x => rw [(denotes_float_iff.1 hi).2, (denotes_float_iff.1 hj).2]
  | text s => exact (denotes_text_iff.1 hi).unique (denotes_text_iff.1 hj)
  | _ => cases hi

/-! ### Writing it -/

theorem toInt_bounds (n : Int64) : leastInt64 ≤ n.toInt ∧ n.toInt ≤ greatestInt64 :=
  ⟨n.le_toInt, Int.le_sub_one_of_lt n.toInt_lt⟩

theorem clamp_eq_iff {i : ℤ} (n : Int64)
    (hi : leastInt64 ≤ i ∧ i ≤ greatestInt64) :
    clamp leastInt64 greatestInt64 i = n.toInt ↔ n.toInt = i := by
  rw [clamp, min_eq_left hi.2, max_eq_right hi.1, eq_comm]

/-- **What is written is the integer that the value stands for**, unless that is beyond 64 bits. -/
theorem integer?_eq_some_iff (hv : ¬ Exceeds v) {n : Int64} :
    integer? v = some n ↔ Denotes v n.toInt := by
  cases v with
  | int m =>
      rw [integer?, Option.some_inj, denotes_int_iff, Int64.toInt_inj]
      exact eq_comm
  | float x =>
      rw [integer?, denotes_float_iff, ← isFinite_iff]
      split
      · next hx =>
        have hx := isFinite_iff.1 hx
        have hbounds : leastInt64 ≤ towardZero (valueOf x) ∧
            towardZero (valueOf x) ≤ greatestInt64 := by
          by_contra hbeyond
          exact hv ⟨x, rfl, hx, hbeyond⟩
        rw [Option.some_inj, ← Int64.toInt_inj, toInt_truncateInt64 hx, clamp_eq_iff n hbounds]
        simp [isFinite_iff, hx]
      · next hx => simp [hx]
  | text s => rw [integer?, readInt64?_eq_some_iff, denotes_text_iff]
  | _ => exact iff_of_false nofun nofun

/-- The integer of 64 bits that comes nearest to a number beyond them. -/
def nearestEnd (i : ℤ) : Int64 := if i < 0 then Int64.minValue else Int64.maxValue

/-- **A double beyond 64 bits is stored as the end that comes nearest**, and it does not stand for
that. -/
theorem encode_of_exceeds (hx : IsFinite x)
    (hbeyond : ¬ (leastInt64 ≤ towardZero (valueOf x) ∧ towardZero (valueOf x) ≤ greatestInt64)) :
    encode (.float x) = .ok (write (nearestEnd (towardZero (valueOf x)))) ∧
      ∀ n : Int64, ¬ Denotes (.float x) n.toInt := by
  constructor
  · have hend : truncateInt64 x = nearestEnd (towardZero (valueOf x)) := by
      rw [← Int64.toInt_inj, toInt_truncateInt64 hx, nearestEnd]
      split
      · rw [Int64.toInt_minValue, clamp]
        simp only [leastInt64, greatestInt64] at hbeyond ⊢
        omega
      · rw [Int64.toInt_maxValue, clamp]
        simp only [leastInt64, greatestInt64] at hbeyond ⊢
        omega
    have hinteger : integer? (.float x) = some (truncateInt64 x) := if_pos (isFinite_iff.2 hx)
    rw [encode, hinteger, hend]
  · intro n hn
    exact hbeyond ((denotes_float_iff.1 hn).2 ▸ toInt_bounds n)

/-- **Which integer a value is stored as.**  A value that does not exceed 64 bits is encoded exactly
if it stands for an integer of 64 bits, as the bytes of that; it stands for one integer at most, and
it is refused if it stands for none.  What is read back from the bytes of an integer is this
integer.  A double beyond 64 bits stands for no integer of 64 bits, and yet it is encoded, as the
least of them or as the greatest. -/
theorem encode_denotes (v : Value) :
    (¬ Exceeds v →
      (∀ bytes, encode v = .ok bytes ↔ ∃ n : Int64, Denotes v n.toInt ∧ bytes = write n) ∧
      ((∀ n : Int64, ¬ Denotes v n.toInt) →
        encode v = .error (.unsupportedValue "long" v.kindName))) ∧
    (∀ i j, Denotes v i → Denotes v j → i = j) ∧
    (∀ n, decode (write n) = .ok (.int n)) ∧
    (Exceeds v → (∀ n : Int64, ¬ Denotes v n.toInt) ∧
      ∃ i, Denotes v i ∧ encode v = .ok (write (nearestEnd i))) := by
  refine ⟨fun hv => ⟨fun bytes => ⟨fun h => ?_, ?_⟩, fun hnone => ?_⟩,
    fun _ _ => Denotes.unique, decode_write, ?_⟩
  · obtain ⟨n, hn, rfl⟩ := encode_eq_ok h
    exact ⟨n, (integer?_eq_some_iff hv).1 hn, rfl⟩
  · rintro ⟨n, hn, rfl⟩
    rw [encode, (integer?_eq_some_iff hv).2 hn]
  · have hrefused : integer? v = none :=
      Option.eq_none_iff_forall_ne_some.2 fun n hn => hnone n ((integer?_eq_some_iff hv).1 hn)
    rw [encode, hrefused]
  · rintro ⟨x, rfl, hx, hbeyond⟩
    obtain ⟨hencode, hnone⟩ := encode_of_exceeds hx hbeyond
    exact ⟨hnone, _, .float hx, hencode⟩

/-- The double next to -3.9 is stored as -3: what is cut off has no influence. -/
theorem encode_denotes_fraction :
    ¬ Exceeds (.float (-3.9)) ∧ Denotes (.float (-3.9)) (-3) ∧
      encode (.float (-3.9)) = .ok (write (-3)) ∧ decode (write (-3)) = .ok (.int (-3)) := by
  have hreading : reading (-3.9) = .finite true 8782019273372467 (-51) := by decide
  have hvalue : valueOf (-3.9) = -8782019273372467 / 2 ^ 51 := by
    rw [valueOf, hreading]
    norm_num [Reading.value, signed]
  have hfinite : IsFinite (-3.9) := by
    rw [IsFinite, hreading]
    trivial
  have hinteger : towardZero (valueOf (-3.9)) = -3 := by
    rw [hvalue, towardZero, if_neg (by norm_num), Int.ceil_eq_iff]
    norm_num
  have hdenotes : Denotes (.float (-3.9)) (-3) := denotes_float_iff.2 ⟨hfinite, hinteger.symm⟩
  have hword : ¬ Exceeds (.float (-3.9)) := by
    rintro ⟨x, hx, -, hbeyond⟩
    obtain rfl := Value.float.inj hx
    rw [hinteger] at hbeyond
    exact hbeyond (by decide)
  obtain ⟨hencode, -, hdecode, -⟩ := encode_denotes (.float (-3.9))
  exact ⟨hword, hdenotes, ((hencode hword).1 _).2 ⟨-3, hdenotes, rfl⟩, hdecode (-3)⟩

/-- The double 10^19 stands for an integer beyond 64 bits, and yet it is stored: as the greatest
integer of 64 bits, which it does not stand for. -/
theorem encode_beyond_greatest :
    Denotes (.float (Float.ofBits 0x43e158e460913d00)) (10 ^ 19) ∧
      encode (.float (Float.ofBits 0x43e158e460913d00)) = .ok (write Int64.maxValue) ∧
      decode (write Int64.maxValue) = .ok (.int Int64.maxValue) ∧
      ∀ n : Int64, ¬ Denotes (.float (Float.ofBits 0x43e158e460913d00)) n.toInt := by
  have hreading : reading (Float.ofBits 0x43e158e460913d00) =
      .finite false 4882812500000000 11 := by
    decide
  have hfinite : IsFinite (Float.ofBits 0x43e158e460913d00) := by
    rw [IsFinite, hreading]
    trivial
  have hinteger : towardZero (valueOf (Float.ofBits 0x43e158e460913d00)) = 10 ^ 19 := by
    rw [valueOf, hreading, towardZero, if_pos (by norm_num [Reading.value, signed]),
      Int.floor_eq_iff]
    norm_num [Reading.value, signed]
  have hbeyond := encode_of_exceeds hfinite (by rw [hinteger]; decide)
  rw [hinteger] at hbeyond
  exact ⟨denotes_float_iff.2 ⟨hfinite, hinteger.symm⟩, hbeyond.1, decode_write _, hbeyond.2⟩

end Strata.Codec.LongWord
