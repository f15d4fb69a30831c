/-
**Points of the space of digests.**

The digits of a fraction are found one after another, and each step rounds.  What has been found so
far, with what is left of it, is a number that grows with the fraction: a step multiplies it by the
base and adds to it a double that grows with the fraction, and rounding keeps the order even where
one of two fractions has been given a greater digit before.  So the points of fractions are in the
order of the fractions, from the first point of all to the last.

* `IsFraction`, `IsRest` — the doubles that the digits are made of;
* `digitProduct`, `digitProduct_le`, `digitProduct_le_add` — one step keeps the order;
* `pointNumber`, `pointNumber_le` — the number that the digits spell keeps the order;
* `carryDigits_eq`, `hashPoint_eq` — carrying gives the digits of that number, cut to the last;
* `hashPoint_le`, `hashPoint_zero`, `hashPoint_one` — **points are in the order of fractions**.
-/

import Strata.Operator.Sampling
import Strata.Proofs.Bytes
import Strata.Proofs.Number.Order
import Strata.Proofs.Number.Parts

set_option relaxedAutoImplicit false
set_option autoImplicit false

namespace Strata

open Number

/-! ### Fractions -/

/-- A double from zero to one. -/
structure IsFraction (f : Float) : Prop where
  finite : IsFinite f
  nonneg : 0 ≤ valueOf f
  le_one : valueOf f ≤ 1

/-- A double that a digit can leave. -/
structure IsRest (r : Float) : Prop where
  finite : IsFinite r
  nonneg : 0 ≤ valueOf r
  lt_one : valueOf r < 1

theorem isFinite_zero : IsFinite (Float.ofNat 0) := (rounds_small (by norm_num)).finite

theorem isFinite_one : IsFinite (Float.ofNat 1) := (rounds_small (by norm_num)).finite

theorem valueOf_zero : valueOf (Float.ofNat 0) = 0 := by
  rw [valueOf_ofNat (by norm_num), Nat.cast_zero]

theorem valueOf_one : valueOf (Float.ofNat 1) = 1 := by
  rw [valueOf_ofNat (by norm_num), Nat.cast_one]

/-- A descriptor is built from fractions, and from nothing else. -/
theorem isFraction_iff {f : Float} : IsFraction f ↔ Float.ofNat 0 ≤ f ∧ f ≤ Float.ofNat 1 := by
  constructor
  · rintro ⟨hfinite, hlow, hhigh⟩
    rw [le_iff_valueOf_le isFinite_zero hfinite, le_iff_valueOf_le hfinite isFinite_one,
      valueOf_zero, valueOf_one]
    exact ⟨hlow, hhigh⟩
  · rintro ⟨hlow, hhigh⟩
    have hfinite := isFinite_of_le_of_le isFinite_zero isFinite_one hlow hhigh
    rw [le_iff_valueOf_le isFinite_zero hfinite, valueOf_zero] at hlow
    rw [le_iff_valueOf_le hfinite isFinite_one, valueOf_one] at hhigh
    exact ⟨hfinite, hlow, hhigh⟩

theorem isRest_zero : IsRest (Float.ofNat 0) :=
  ⟨isFinite_zero, valueOf_zero.ge, by rw [valueOf_zero]; norm_num⟩

/-- The greatest double below one is far enough from it. -/
theorem IsRest.le {r : Float} (h : IsRest r) : valueOf r ≤ 1 - 2 ^ (-53 : ℤ) := by
  rcases lt_or_ge (valueOf r) (2 ^ (-1 : ℤ)) with hsmall | hlarge
  · norm_num at hsmall ⊢
    linarith
  · obtain ⟨n, hn⟩ := (representable_valueOf r).exists_multiple
      (hlarge.trans (le_abs_self (valueOf r)))
    have hlt : n < 2 ^ 53 := by
      have hone := h.lt_one
      rw [hn, show (-1 - 52 : ℤ) = -53 by norm_num, zpow_neg, ← div_eq_mul_inv,
        div_lt_one (by positivity)] at hone
      exact_mod_cast hone
    have hcast : (n : ℚ) ≤ 2 ^ 53 - 1 := by
      have : n ≤ 2 ^ 53 - 1 := by omega
      exact_mod_cast this
    rw [hn]
    norm_num
    linarith

/-! ### One digit -/

/-- What a digit and its rest are taken from. -/
def digitProduct (f r : Float) : Float := f * Float.ofNat 255 + r * Float.ofNat 256

/-- What a digit leaves. -/
def digitRest (f r : Float) : Float := digitProduct f r - floor (digitProduct f r)

theorem fractionDigits_succ (f : Float) (n : Nat) (r : Float) :
    fractionDigits f (n + 1) r =
      floorWord32 (digitProduct f r) :: fractionDigits f n (digitRest f r) :=
  rfl

variable {f g r s : Float}

theorem abs_le_safeBound {q : ℚ} (h : |q| ≤ 2 ^ 10) : |q| ≤ safeBound :=
  h.trans (two_pow_le_safeBound (by norm_num))

/-- What every digit takes from the fraction. -/
theorem IsFraction.rounds_share (hf : IsFraction f) :
    Rounds (valueOf f * 255) (f * Float.ofNat 255) := by
  have h255 := rounds_small (n := 255) (by norm_num)
  have hvalue := valueOf_ofNat (n := 255) (by norm_num)
  have hmul := rounds_mul (y := Float.ofNat 255) hf.finite h255.finite
  rw [hvalue] at hmul
  refine hmul (abs_le_safeBound ?_)
  rw [Nat.cast_ofNat, abs_of_nonneg (by linarith [hf.nonneg])]
  linarith [hf.le_one]

theorem IsFraction.share_bounds (hf : IsFraction f) :
    0 ≤ valueOf (f * Float.ofNat 255) ∧ valueOf (f * Float.ofNat 255) ≤ 255 := by
  have h255 : Representable 255 := by exact_mod_cast representable_natCast (n := 255) (by norm_num)
  constructor
  · exact hf.rounds_share.nearest.ge Representable.zero (by linarith [hf.nonneg])
  · exact hf.rounds_share.nearest.le h255 (by linarith [hf.le_one])

theorem IsFraction.share_le (hf : IsFraction f) (hg : IsFraction g) (h : valueOf f ≤ valueOf g) :
    valueOf (f * Float.ofNat 255) ≤ valueOf (g * Float.ofNat 255) := by
  have hbound : ∀ {f : Float}, IsFraction f →
      |valueOf f * valueOf (Float.ofNat 255)| ≤ safeBound := by
    intro f hf
    rw [valueOf_ofNat (by norm_num), Nat.cast_ofNat]
    refine abs_le_safeBound ?_
    rw [abs_of_nonneg (by linarith [hf.nonneg])]
    linarith [hf.le_one]
  refine valueOf_mul_le hf.finite hg.finite (rounds_small (by norm_num)).finite (hbound hf)
    (hbound hg) h ?_
  rw [valueOf_ofNat (by norm_num)]
  norm_num

/-- Multiplying what is left by the base is exact. -/
theorem IsRest.rounds_scaled (hr : IsRest r) :
    Rounds (2 ^ 8 * valueOf r) (r * Float.ofNat 256) ∧
      valueOf (r * Float.ofNat 256) = 2 ^ 8 * valueOf r := by
  have h256 := rounds_small (n := 256) (by norm_num)
  have hvalue : valueOf (Float.ofNat 256) = 2 ^ 8 := by
    rw [valueOf_ofNat (by norm_num)]
    norm_num
  have hmul := rounds_mul (y := Float.ofNat 256) hr.finite h256.finite
  rw [hvalue, mul_comm] at hmul
  have hrounds := hmul (abs_le_safeBound (by
    rw [abs_of_nonneg (by linarith [hr.nonneg])]
    linarith [hr.lt_one]))
  exact ⟨hrounds, hrounds.valueOf_eq ((representable_valueOf r).mul_two_pow 8)⟩

theorem sum_bounds (hf : IsFraction f) (hr : IsRest r) :
    0 ≤ valueOf (f * Float.ofNat 255) + valueOf (r * Float.ofNat 256) ∧
      valueOf (f * Float.ofNat 255) + valueOf (r * Float.ofNat 256) ≤
        valueOf (f * Float.ofNat 255) + 2 ^ 8 * (1 - 2 ^ (-53 : ℤ)) := by
  rw [hr.rounds_scaled.2]
  constructor
  · linarith [hf.share_bounds.1, hr.nonneg]
  · linarith [hr.le]

theorem sum_le_safeBound (hf : IsFraction f) (hr : IsRest r) :
    |valueOf (f * Float.ofNat 255) + valueOf (r * Float.ofNat 256)| ≤ safeBound := by
  refine abs_le_safeBound ?_
  rw [abs_of_nonneg (sum_bounds hf hr).1, hr.rounds_scaled.2]
  linarith [hf.share_bounds.2, hr.lt_one]

theorem rounds_digitProduct (hf : IsFraction f) (hr : IsRest r) :
    Rounds (valueOf (f * Float.ofNat 255) + valueOf (r * Float.ofNat 256)) (digitProduct f r) :=
  rounds_add hf.rounds_share.finite hr.rounds_scaled.1.finite (sum_le_safeBound hf hr)

theorem digitProduct_bounds (hf : IsFraction f) (hr : IsRest r) :
    0 ≤ valueOf (digitProduct f r) ∧ valueOf (digitProduct f r) ≤ 511 := by
  have h511 : Representable 511 := by exact_mod_cast representable_natCast (n := 511) (by norm_num)
  have hnearest := (rounds_digitProduct hf hr).nearest
  obtain ⟨hlow, -⟩ := sum_bounds hf hr
  refine ⟨hnearest.ge Representable.zero hlow, hnearest.le h511 ?_⟩
  rw [hr.rounds_scaled.2]
  linarith [hf.share_bounds.2, hr.lt_one]

/-- **Where no digit differs before**, a greater fraction has the greater product. -/
theorem digitProduct_le (hf : IsFraction f) (hg : IsFraction g) (hr : IsRest r) (hs : IsRest s)
    (h : valueOf f ≤ valueOf g) (hrest : valueOf r ≤ valueOf s) :
    valueOf (digitProduct f r) ≤ valueOf (digitProduct g s) := by
  refine valueOf_add_le hf.rounds_share.finite hr.rounds_scaled.1.finite hg.rounds_share.finite
    hs.rounds_scaled.1.finite (sum_le_safeBound hf hr) (sum_le_safeBound hg hs)
    (hf.share_le hg h) ?_
  rw [hr.rounds_scaled.2, hs.rounds_scaled.2]
  linarith

/-- The last point of the grid up to a sum with 256, from which the grid is at least as wide. -/
theorem exists_last_point {a : ℚ} (ha : 0 ≤ a) (ha' : a ≤ 255) :
    ∃ n : ℤ, Representable (n * 2 ^ (-44 : ℤ)) ∧ 256 ≤ (n : ℚ) * 2 ^ (-44 : ℤ) ∧
      (n : ℚ) * 2 ^ (-44 : ℤ) ≤ a + 256 ∧ a + 256 < n * 2 ^ (-44 : ℤ) + 2 ^ (-44 : ℤ) := by
  obtain ⟨n, hlow, hhigh⟩ : ∃ n : ℤ, (n : ℚ) ≤ a * 2 ^ 44 ∧ a * 2 ^ 44 < n + 1 :=
    ⟨⌊a * 2 ^ 44⌋, Int.floor_le _, Int.lt_floor_add_one _⟩
  have hnonneg : 0 ≤ n := by
    have : (-1 : ℚ) < n := by linarith
    have : -1 < n := by exact_mod_cast this
    omega
  have hsmall : n ≤ 255 * 2 ^ 44 := by
    have : (n : ℚ) ≤ 255 * 2 ^ 44 := by linarith
    exact_mod_cast this
  have hnonneg' : (0 : ℚ) ≤ n := by exact_mod_cast hnonneg
  refine ⟨256 * 2 ^ 44 + n, ⟨_, -44, ?_, by norm_num, rfl⟩, ?_, ?_, ?_⟩
  · rw [abs_of_nonneg (by positivity)]
    omega
  all_goals
    push_cast
    norm_num at hlow hhigh ⊢
    linarith

/-- Whatever is above a point of the grid, from 256 on, is so by a step at least. -/
theorem Number.Representable.step_le {y : ℚ} (hy : Representable y) {n : ℤ}
    (hn : 256 ≤ (n : ℚ) * 2 ^ (-44 : ℤ)) (hlt : (n : ℚ) * 2 ^ (-44 : ℤ) < y) :
    n * 2 ^ (-44 : ℤ) + 2 ^ (-44 : ℤ) ≤ y := by
  obtain ⟨k, hk⟩ := hy.exists_multiple (k := 8)
    (((by norm_num : (2 : ℚ) ^ (8 : ℤ) ≤ 256).trans (hn.trans hlt.le)).trans (le_abs_self y))
  have hpos : (0 : ℚ) < 2 ^ (-44 : ℤ) := by positivity
  rw [show (8 - 52 : ℤ) = -44 by norm_num] at hk
  rw [hk] at hlt ⊢
  have hint : n < k := by exact_mod_cast lt_of_mul_lt_mul_right hlt hpos.le
  have hcast : (n : ℚ) + 1 ≤ k := by exact_mod_cast hint
  calc (n : ℚ) * 2 ^ (-44 : ℤ) + 2 ^ (-44 : ℤ) = (n + 1) * 2 ^ (-44 : ℤ) := by ring
    _ ≤ k * 2 ^ (-44 : ℤ) := mul_le_mul_of_nonneg_right hcast hpos.le

/-- A sum that is less than `a + 256` by half a unit of the last place is not rounded above it. -/
theorem nearest_le_add {a q y : ℚ} (ha : 0 ≤ a) (ha' : a ≤ 255) (hy : Nearest q y)
    (hq : q ≤ a + 2 ^ 8 * (1 - 2 ^ (-53 : ℤ))) : y ≤ a + 256 := by
  obtain ⟨n, hrep, h256, hle, hnext⟩ := exists_last_point ha ha'
  refine le_trans ?_ hle
  by_contra hlt
  rw [not_le] at hlt
  -- above the last point up to `a + 256` the grid is so wide that this point would be nearer
  have hstep := hy.representable.step_le h256 hlt
  have hbelow : n * 2 ^ (-44 : ℤ) < q := by
    by_contra hle
    exact absurd (hy.le hrep (not_lt.1 hle)) (not_le.2 hlt)
  have hnear := hy.le_of_representable _ hrep
  rw [abs_of_pos (sub_pos.2 hbelow)] at hnear
  have hfar := neg_abs_le (q - y)
  norm_num at hq hstep hnear hnext
  linarith

/-- **Where a digit differs before**, rounding does not make up for it. -/
theorem digitProduct_le_add (hf : IsFraction f) (hg : IsFraction g) (hr : IsRest r)
    (hs : IsRest s) (h : valueOf f ≤ valueOf g) :
    valueOf (digitProduct f r) ≤ valueOf (digitProduct g s) + 256 := by
  obtain ⟨hlow, hhigh⟩ := hf.share_bounds
  have hupper := nearest_le_add hlow hhigh (rounds_digitProduct hf hr).nearest (sum_bounds hf hr).2
  have hlower : valueOf (g * Float.ofNat 255) ≤ valueOf (digitProduct g s) := by
    refine (rounds_digitProduct hg hs).nearest.ge (representable_valueOf _) ?_
    rw [hs.rounds_scaled.2]
    linarith [hs.nonneg]
  linarith [hf.share_le hg h]

/-- The digit is the integer part of the product. -/
theorem digit_eq (hf : IsFraction f) (hr : IsRest r) :
    (floorWord32 (digitProduct f r) : ℤ) = ⌊valueOf (digitProduct f r)⌋ := by
  obtain ⟨hlow, hhigh⟩ := digitProduct_bounds hf hr
  exact floorWord32_eq (rounds_digitProduct hf hr).finite hlow (by linarith)

theorem digit_le (hf : IsFraction f) (hr : IsRest r) : floorWord32 (digitProduct f r) ≤ 511 := by
  have hfloor : ⌊valueOf (digitProduct f r)⌋ ≤ 511 :=
    Int.floor_le_iff.2 (by push_cast; linarith [(digitProduct_bounds hf hr).2])
  have := digit_eq hf hr
  omega

/-- **What a digit leaves** is the rest of the product, and exact. -/
theorem rounds_digitRest (hf : IsFraction f) (hr : IsRest r) :
    Rounds (Int.fract (valueOf (digitProduct f r))) (digitRest f r) := by
  have hfinite := (rounds_digitProduct hf hr).finite
  obtain ⟨hlow, hhigh⟩ := digitProduct_bounds hf hr
  have hsafe : |(⌊valueOf (digitProduct f r)⌋ : ℚ)| ≤ safeBound := by
    refine abs_le_safeBound ?_
    rw [abs_of_nonneg (by exact_mod_cast Int.floor_nonneg.2 hlow)]
    linarith [Int.floor_le (valueOf (digitProduct f r))]
  have hfloor := valueOf_floor hfinite hsafe
  have hsub := rounds_sub hfinite (rounds_floor hfinite hsafe).finite
  rw [hfloor, Int.self_sub_floor] at hsub
  refine hsub (abs_le_safeBound ?_)
  rw [abs_of_nonneg (Int.fract_nonneg _)]
  linarith [Int.fract_lt_one (valueOf (digitProduct f r))]

theorem valueOf_digitRest (hf : IsFraction f) (hr : IsRest r) :
    valueOf (digitRest f r) = Int.fract (valueOf (digitProduct f r)) :=
  (rounds_digitRest hf hr).valueOf_eq
    ((representable_valueOf _).fract (digitProduct_bounds hf hr).1)

theorem isRest_digitRest (hf : IsFraction f) (hr : IsRest r) : IsRest (digitRest f r) := by
  refine ⟨(rounds_digitRest hf hr).finite, ?_, ?_⟩ <;> rw [valueOf_digitRest hf hr]
  · exact Int.fract_nonneg _
  · exact Int.fract_lt_one _

/-- A digit and what it leaves are the product. -/
theorem digit_add_rest (hf : IsFraction f) (hr : IsRest r) :
    (floorWord32 (digitProduct f r) : ℚ) + valueOf (digitRest f r) =
      valueOf (digitProduct f r) := by
  have hdigit : (floorWord32 (digitProduct f r) : ℚ) = ⌊valueOf (digitProduct f r)⌋ := by
    exact_mod_cast digit_eq hf hr
  rw [hdigit, valueOf_digitRest hf hr, Int.floor_add_fract]

/-! ### All digits -/

/-- The number that digits spell in base 256, whatever their size, the first the most
significant. -/
def spelled (digits : List Nat) : Nat := Nat.ofDigits 256 digits.reverse

@[simp] theorem spelled_nil : spelled [] = 0 := rfl

@[simp] theorem spelled_cons (digit : Nat) (digits : List Nat) :
    spelled (digit :: digits) = digit * 256 ^ digits.length + spelled digits := by
  rw [spelled, spelled, List.reverse_cons, Nat.ofDigits_append, Nat.ofDigits_singleton,
    List.length_reverse]
  ring

@[simp] theorem length_fractionDigits (f : Float) (n : Nat) (r : Float) :
    (fractionDigits f n r).length = n := by
  induction n generalizing r with
  | zero => rfl
  | succ n ih => rw [fractionDigits_succ, List.length_cons, ih]

theorem le_of_mem_fractionDigits (hf : IsFraction f) {n : Nat} (hr : IsRest r) :
    ∀ digit ∈ fractionDigits f n r, digit ≤ 511 := by
  induction n generalizing r with
  | zero => simp [fractionDigits]
  | succ n ih =>
      rw [fractionDigits_succ, List.forall_mem_cons]
      exact ⟨digit_le hf hr, ih (isRest_digitRest hf hr)⟩

/-- Whole numbers and what is less than one are in order if their sums are. -/
theorem whole_le_of_add_le {m n : Nat} {a b : ℚ} (ha : 0 ≤ a) (hb : b < 1)
    (h : (m : ℚ) + a ≤ n + b) : m ≤ n := by
  have hlt : (m : ℚ) < ((n + 1 : Nat) : ℚ) := by
    push_cast
    linarith
  exact Nat.lt_succ_iff.1 (by exact_mod_cast hlt)

/-- **The digits keep the order.**  What has been found so far are `m` and `n`; the induction is on
the digits still to be found. -/
theorem spelled_fractionDigits_le (hf : IsFraction f) (hg : IsFraction g)
    (h : valueOf f ≤ valueOf g) {count m n : Nat} (hr : IsRest r) (hs : IsRest s)
    (hsofar : (m : ℚ) + valueOf r ≤ n + valueOf s) :
    m * 256 ^ count + spelled (fractionDigits f count r) ≤
      n * 256 ^ count + spelled (fractionDigits g count s) := by
  induction count generalizing m n r s with
  | zero => simpa [fractionDigits] using whole_le_of_add_le hr.nonneg hs.lt_one hsofar
  | succ count ih =>
      have hstep : 256 * (m : ℚ) + valueOf (digitProduct f r) ≤
          256 * n + valueOf (digitProduct g s) := by
        rcases (whole_le_of_add_le hr.nonneg hs.lt_one hsofar).lt_or_eq with hlt | rfl
        · have hcast : (m : ℚ) + 1 ≤ n := by exact_mod_cast hlt
          linarith [digitProduct_le_add hf hg hr hs h]
        · linarith [digitProduct_le hf hg hr hs h (by linarith)]
      rw [← digit_add_rest hf hr, ← digit_add_rest hg hs] at hstep
      have hnext := ih (m := 256 * m + floorWord32 (digitProduct f r))
        (n := 256 * n + floorWord32 (digitProduct g s)) (isRest_digitRest hf hr)
        (isRest_digitRest hg hs) (by push_cast; linarith)
      rw [fractionDigits_succ, fractionDigits_succ, spelled_cons, spelled_cons,
        length_fractionDigits, length_fractionDigits, pow_succ]
      calc m * (256 ^ count * 256) + (floorWord32 (digitProduct f r) * 256 ^ count +
              spelled (fractionDigits f count (digitRest f r)))
          = (256 * m + floorWord32 (digitProduct f r)) * 256 ^ count +
              spelled (fractionDigits f count (digitRest f r)) := by ring
        _ ≤ (256 * n + floorWord32 (digitProduct g s)) * 256 ^ count +
              spelled (fractionDigits g count (digitRest g s)) := hnext
        _ = _ := by ring

/-- The number that the digits of a fraction spell, before it is cut to the last point. -/
def pointNumber (length : Nat) (f : Float) : Nat :=
  spelled (fractionDigits f length (Float.ofNat 0))

theorem pointNumber_le (hf : IsFraction f) (hg : IsFraction g) (h : valueOf f ≤ valueOf g)
    (length : Nat) : pointNumber length f ≤ pointNumber length g := by
  simpa [pointNumber] using
    spelled_fractionDigits_le hf hg h (m := 0) (n := 0) isRest_zero isRest_zero le_rfl

/-- The digits of nothing and of the whole are all the same. -/
theorem fractionDigits_of_whole {k : Nat} (hf : IsFraction f) (hk : valueOf f = k) {n : Nat}
    (hr : IsRest r) (hzero : valueOf r = 0) :
    fractionDigits f n r = List.replicate n (k * 255) := by
  have hsmall : k * 255 ≤ 2 ^ 53 := by
    have hone : (k : ℚ) ≤ 1 := hk ▸ hf.le_one
    have : k ≤ 1 := by exact_mod_cast hone
    omega
  have hshare : valueOf (f * Float.ofNat 255) = (k * 255 : Nat) := by
    have hexact := hf.rounds_share
    rw [hk] at hexact
    refine (hexact.valueOf_eq ?_).trans (by push_cast; rfl)
    exact_mod_cast representable_natCast hsmall
  induction n generalizing r with
  | zero => rfl
  | succ n ih =>
      have hproduct : valueOf (digitProduct f r) = (k * 255 : Nat) := by
        have hsum := rounds_digitProduct hf hr
        rw [hr.rounds_scaled.2, hzero, mul_zero, add_zero] at hsum
        rw [hsum.valueOf_eq (representable_valueOf _), hshare]
      have hdigit : floorWord32 (digitProduct f r) = k * 255 := by
        have := digit_eq hf hr
        rw [hproduct, Int.floor_natCast] at this
        exact_mod_cast this
      have hrest : valueOf (digitRest f r) = 0 := by
        rw [valueOf_digitRest hf hr, hproduct, Int.fract_natCast]
      rw [fractionDigits_succ, hdigit, ih (isRest_digitRest hf hr) hrest, List.replicate_succ]

/-! ### Carrying -/

/-- Digits of twice the size carry two at most. -/
theorem spelled_lt {digits : List Nat} (h : ∀ digit ∈ digits, digit ≤ 511) :
    spelled digits < 3 * 256 ^ digits.length := by
  induction digits with
  | nil => simp
  | cons digit digits ih =>
      obtain ⟨hdigit, hdigits⟩ := List.forall_mem_cons.1 h
      have hrest := ih hdigits
      have hfirst : digit * 256 ^ digits.length ≤ 511 * 256 ^ digits.length :=
        Nat.mul_le_mul_right _ hdigit
      rw [spelled_cons, List.length_cons, pow_succ]
      omega

/-- **Carrying gives the bytes of the number that the digits spell**, and what exceeds them. -/
theorem carryDigits_eq {digits : List Nat} (h : ∀ digit ∈ digits, digit ≤ 511) :
    carryDigits digits =
      (spelled digits / 256 ^ digits.length, Bytes.ofNat digits.length (spelled digits)) := by
  induction digits with
  | nil => rfl
  | cons digit digits ih =>
      obtain ⟨hdigit, hdigits⟩ := List.forall_mem_cons.1 h
      have hpos : 0 < 256 ^ digits.length := Nat.pow_pos (by norm_num)
      have hcarry : spelled digits / 256 ^ digits.length < 3 :=
        (Nat.div_lt_iff_lt_mul hpos).2 (spelled_lt hdigits)
      have htotal : (digit * 256 ^ digits.length + spelled digits) / 256 ^ digits.length =
          digit + spelled digits / 256 ^ digits.length := by
        rw [add_comm, Nat.add_mul_div_right _ _ hpos, add_comm]
      have hword : (digit + spelled digits / 256 ^ digits.length) % 2 ^ 32 =
          digit + spelled digits / 256 ^ digits.length := Nat.mod_eq_of_lt (by omega)
      rw [carryDigits, ih hdigits]
      simp only [hword, spelled_cons, List.length_cons, Bytes.ofNat_succ, Bytes.ofNat_add_mul,
        htotal]
      rw [pow_succ, ← Nat.div_div_eq_div_mul, htotal]

theorem ofNat_last (width : Nat) :
    Bytes.ofNat width (256 ^ width - 1) = List.replicate width 0xff := by
  induction width with
  | zero => rfl
  | succ width ih =>
      have hpos : 0 < 256 ^ width := Nat.pow_pos (by norm_num)
      have hsplit : 256 ^ (width + 1) - 1 = 255 * 256 ^ width + (256 ^ width - 1) := by
        rw [pow_succ]
        omega
      have hdigit : (255 * 256 ^ width + (256 ^ width - 1)) / 256 ^ width = 255 := by
        rw [add_comm, Nat.add_mul_div_right _ _ hpos, Nat.div_eq_of_lt (by omega)]
      rw [Bytes.ofNat_succ, hsplit, hdigit, Bytes.ofNat_add_mul, ih, List.replicate_succ]
      rfl

/-- **The point of a fraction** is the number that its digits spell, cut to the last point. -/
theorem hashPoint_eq (hf : IsFraction f) (length : Nat) :
    hashPoint length f = Bytes.ofNat length (min (pointNumber length f) (256 ^ length - 1)) := by
  have hpos : 0 < 256 ^ length := Nat.pow_pos (by norm_num)
  rw [hashPoint, carryDigits_eq (le_of_mem_fractionDigits hf isRest_zero), length_fractionDigits]
  dsimp only
  rw [← pointNumber]
  split
  · next hcarry =>
    have hlarge : 256 ^ length ≤ pointNumber length f := by
      by_contra hlt
      rw [Nat.div_eq_of_lt (not_le.1 hlt)] at hcarry
      exact absurd hcarry (lt_irrefl 0)
    rw [min_eq_right (by omega), ofNat_last]
  · next hcarry =>
    have hsmall : pointNumber length f < 256 ^ length := by
      by_contra hle
      exact hcarry (Nat.div_pos (not_lt.1 hle) hpos)
    rw [min_eq_left (by omega)]

/-! ### The order of points -/

/-- **Points are in the order of their fractions.** -/
theorem hashPoint_le (hf : IsFraction f) (hg : IsFraction g) (h : valueOf f ≤ valueOf g)
    (length : Nat) : hashPoint length f ≤ hashPoint length g := by
  have hpos : 0 < 256 ^ length := Nat.pow_pos (by norm_num)
  have hle := pointNumber_le hf hg h length
  rw [hashPoint_eq hf, hashPoint_eq hg, ← not_lt, Bytes.ofNat_lt_ofNat_iff,
    Nat.mod_eq_of_lt (by omega), Nat.mod_eq_of_lt (by omega)]
  omega

@[simp] theorem length_hashPoint (hf : IsFraction f) (length : Nat) :
    (hashPoint length f).length = length := by
  rw [hashPoint_eq hf, Bytes.length_ofNat]

theorem spelled_replicate (n k : Nat) :
    spelled (List.replicate n (k * 255)) = k * (256 ^ n - 1) := by
  induction n with
  | zero => simp
  | succ n ih =>
      have hpos : 0 < 256 ^ n := Nat.pow_pos (by norm_num)
      have hsplit : 256 ^ (n + 1) - 1 = 255 * 256 ^ n + (256 ^ n - 1) := by
        rw [pow_succ]
        omega
      rw [List.replicate_succ, spelled_cons, List.length_replicate, ih, hsplit]
      ring

theorem hashPoint_of_whole {k : Nat} (hf : IsFraction f) (hk : valueOf f = k) (length : Nat) :
    hashPoint length f = Bytes.ofNat length (k * (256 ^ length - 1)) := by
  have hone : k ≤ 1 := by
    have : (k : ℚ) ≤ 1 := hk ▸ hf.le_one
    exact_mod_cast this
  have hle : k * (256 ^ length - 1) ≤ 1 * (256 ^ length - 1) := Nat.mul_le_mul_right _ hone
  rw [hashPoint_eq hf, pointNumber, fractionDigits_of_whole hf hk isRest_zero valueOf_zero,
    spelled_replicate, min_eq_left (by omega)]

/-- **No point is before that of nothing.** -/
theorem hashPoint_zero_le (hf : IsFraction f) (h : valueOf f = 0) (point : Bytes) :
    hashPoint point.length f ≤ point := by
  rw [hashPoint_of_whole hf (k := 0) (by rw [h, Nat.cast_zero]), zero_mul, ← not_lt]
  nth_rewrite 1 [← Bytes.ofNat_toNat point]
  rw [Bytes.ofNat_lt_ofNat_iff, Nat.zero_mod]
  exact Nat.not_lt_zero _

/-- **No point is behind that of the whole.** -/
theorem le_hashPoint_one (hf : IsFraction f) (h : valueOf f = 1) (point : Bytes) :
    point ≤ hashPoint point.length f := by
  have hlt := Bytes.toNat_lt point
  rw [hashPoint_of_whole hf (k := 1) (by rw [h, Nat.cast_one]), one_mul, ← not_lt]
  nth_rewrite 3 [← Bytes.ofNat_toNat point]
  rw [Bytes.ofNat_lt_ofNat_iff, Nat.mod_eq_of_lt hlt, Nat.mod_eq_of_lt (by omega)]
  omega

end Strata
