/-
**Samples side by side.**

A chain of fractions from zero to one cuts the space of digests into pieces, one between each two
neighbours.  The points of the chain are in its order, each piece holds its lower point and not its
upper, and the last one holds the last point of all, so every key is in one sample of the chain and
in no other.  Raising the upper fraction of a sample only adds keys to it.

* `FractionChain` — chains of fractions;
* `admits_iff` — the keys of a sample that is not limited to timestamps;
* `FractionChain.existsUnique`, `admits_of_le` — one sample for every key, and samples in samples;
* `adjacent_samples` — **adjacent samples partition the keys, nested ones are nested**.
-/

import Strata.Proofs.Operator.HashPoint
import Strata.Sha256

set_option relaxedAutoImplicit false
set_option autoImplicit false

namespace Strata

open Number

/-! ### Descriptors -/

theorem checkFraction_eq_ok (option : String) {f : Float} (h : IsFraction f) :
    Sample.checkFraction option f = .ok () := by
  rw [Sample.checkFraction, if_pos (isFraction_iff.1 h)]

theorem make_eq_ok (seed : String) {f g : Float} (hf : IsFraction f) (hg : IsFraction g) :
    Sample.make seed f g = .ok ⟨seed, f, g, none, none⟩ := by
  rw [Sample.make, checkFraction_eq_ok _ hf, checkFraction_eq_ok _ hg]
  rfl

theorem spans_iff (filter : SampleFilter) (point : Bytes) :
    filter.spans point = true ↔ filter.low ≤ point ∧
      (point < filter.high ∨ filter.includesTop = true ∧ point = filter.high) := by
  rw [SampleFilter.spans, Bool.and_eq_true, Bool.or_eq_true, Bool.and_eq_true, decide_eq_true_iff,
    decide_eq_true_iff, not_lt, beq_iff_eq]

/-- What a sample holds that is not limited to timestamps. -/
theorem admits_iff (digest : Bytes → Bytes) (seed : String) (f g : Float) (key : Bytes)
    (timestamp : Nat) :
    (SampleFilter.ofSample ⟨seed, f, g, none, none⟩).admits digest key timestamp = true ↔
      hashPoint digestLength f ≤ digest (Bytes.ofText seed ++ key) ∧
        (digest (Bytes.ofText seed ++ key) < hashPoint digestLength g ∨
          (g == Float.ofNat 1) = true ∧
            digest (Bytes.ofText seed ++ key) = hashPoint digestLength g) := by
  simp only [SampleFilter.admits, Bool.and_eq_true, spans_iff, SampleFilter.during,
    SampleFilter.ofSample, Option.all_none, Bool.and_self, true_and]

/-! ### Chains -/

/-- Fractions from zero to one, in order, of which the last but one is not yet one. -/
structure FractionChain (m : Nat) (x : Nat → Float) : Prop where
  first : (x 0 == Float.ofNat 0) = true
  last : (x m == Float.ofNat 1) = true
  ordered : ∀ i < m, x i ≤ x (i + 1)
  proper : x (m - 1) < Float.ofNat 1

namespace FractionChain

variable {m : Nat} {x : Nat → Float}

theorem le_of_le (h : FractionChain m x) {i j : Nat} (hij : i < j) (hj : j ≤ m) : x i ≤ x j := by
  induction j with
  | zero => omega
  | succ j ih =>
      rcases Nat.lt_succ_iff_lt_or_eq.1 hij with hlt | rfl
      · exact double_le_trans (ih hlt (by omega)) (h.ordered j hj)
      · exact h.ordered i hj

/-- A chain has two fractions at least. -/
theorem pos (h : FractionChain m x) : 0 < m := by
  by_contra hm
  obtain rfl : m = 0 := by omega
  have hzero := (valueOf_of_beq h.first isFinite_zero).2
  have hone := (valueOf_of_beq h.last isFinite_one).2
  rw [hzero, valueOf_zero, valueOf_one] at hone
  exact absurd hone (by norm_num)

/-- Nothing of a chain is below its first fraction, nor above its last. -/
theorem isFraction (h : FractionChain m x) {i : Nat} (hi : i ≤ m) : IsFraction (x i) := by
  obtain ⟨hfirst, hzero⟩ := valueOf_of_beq h.first isFinite_zero
  obtain ⟨hlast, hone⟩ := valueOf_of_beq h.last isFinite_one
  rw [valueOf_zero] at hzero
  rw [valueOf_one] at hone
  rcases Nat.eq_zero_or_pos i with rfl | hpos
  · exact ⟨hfirst, hzero.ge, by rw [hzero]; norm_num⟩
  · rcases hi.lt_or_eq with hlt | rfl
    · have hlow := h.le_of_le hpos hi
      have hhigh := h.le_of_le hlt le_rfl
      have hfinite := isFinite_of_le_of_le hfirst hlast hlow hhigh
      rw [le_iff_valueOf_le hfirst hfinite, hzero] at hlow
      rw [le_iff_valueOf_le hfinite hlast, hone] at hhigh
      exact ⟨hfinite, hlow, hhigh⟩
    · exact ⟨hlast, by rw [hone]; norm_num, hone.le⟩

theorem valueOf_le (h : FractionChain m x) {i j : Nat} (hij : i ≤ j) (hj : j ≤ m) :
    valueOf (x i) ≤ valueOf (x j) := by
  rcases hij.lt_or_eq with hlt | rfl
  · exact (le_iff_valueOf_le (h.isFraction (hij.trans hj)).finite (h.isFraction hj).finite).1
      (h.le_of_le hlt hj)
  · exact le_rfl

/-- Only the last fraction is one. -/
theorem beq_one_iff (h : FractionChain m x) {i : Nat} (hi : i ≤ m) :
    (x i == Float.ofNat 1) = true ↔ i = m := by
  constructor
  · intro hone
    by_contra hne
    have hle := h.valueOf_le (i := i) (j := m - 1) (by omega) (by omega)
    have hlt := (lt_iff_valueOf_lt (h.isFraction (Nat.sub_le m 1)).finite isFinite_one).1 h.proper
    rw [← (valueOf_of_beq hone isFinite_one).2] at hlt
    exact absurd hle (not_le.2 hlt)
  · rintro rfl
    exact h.last

/-- The points of a chain are in its order. -/
theorem hashPoint_le (h : FractionChain m x) {i j : Nat} (hij : i ≤ j) (hj : j ≤ m) :
    hashPoint digestLength (x i) ≤ hashPoint digestLength (x j) :=
  Strata.hashPoint_le (h.isFraction (hij.trans hj)) (h.isFraction hj) (h.valueOf_le hij hj) _

/-- No digest is before the first point of a chain. -/
theorem first_le (h : FractionChain m x) {point : Bytes} (hlength : point.length = digestLength) :
    hashPoint digestLength (x 0) ≤ point := by
  rw [← hlength]
  refine hashPoint_zero_le (h.isFraction (Nat.zero_le m)) ?_ point
  rw [(valueOf_of_beq h.first isFinite_zero).2, valueOf_zero]

/-- No digest is behind the last point of a chain. -/
theorem le_last (h : FractionChain m x) {point : Bytes} (hlength : point.length = digestLength) :
    point ≤ hashPoint digestLength (x m) := by
  rw [← hlength]
  refine le_hashPoint_one (h.isFraction le_rfl) ?_ point
  rw [(valueOf_of_beq h.last isFinite_one).2, valueOf_one]

/-- **Every point is in one piece of a chain**: behind the last point of the chain that it is not
before. -/
theorem existsUnique (h : FractionChain m x) (digest : Bytes → Bytes) (seed : String)
    (key : Bytes) (timestamp : Nat)
    (hlength : (digest (Bytes.ofText seed ++ key)).length = digestLength) :
    ∃! i, i < m ∧ (SampleFilter.ofSample ⟨seed, x i, x (i + 1), none, none⟩).admits digest key
      timestamp = true := by
  generalize hpoint : digest (Bytes.ofText seed ++ key) = point at hlength
  have hm := h.pos
  -- the last piece that begins at the point or before it
  obtain ⟨k, hk⟩ : ∃ k, k = Nat.findGreatest (fun i => hashPoint digestLength (x i) ≤ point)
    (m - 1) := ⟨_, rfl⟩
  have hkm : k ≤ m - 1 := hk ▸ Nat.findGreatest_le _
  have hlow : hashPoint digestLength (x k) ≤ point := by
    rw [hk]
    exact Nat.findGreatest_spec (P := fun i => hashPoint digestLength (x i) ≤ point)
      (Nat.zero_le _) (h.first_le hlength)
  refine ⟨k, ⟨by omega, ?_⟩, ?_⟩
  · rw [admits_iff, hpoint]
    refine ⟨hlow, ?_⟩
    rcases hkm.lt_or_eq with hlt | hlast
    · left
      rw [← not_le]
      exact Nat.findGreatest_is_greatest (P := fun i => hashPoint digestLength (x i) ≤ point)
        (by rw [← hk]; exact Nat.lt_succ_self k) (by omega)
    · have hnext : k + 1 = m := by omega
      rw [hnext]
      exact (h.le_last hlength).lt_or_eq.imp_right fun heq => ⟨h.last, heq⟩
  · rintro i ⟨him, hadmits⟩
    rw [admits_iff, hpoint] at hadmits
    obtain ⟨hfrom, hto⟩ := hadmits
    have hik : i ≤ k := by
      rw [hk]
      exact Nat.le_findGreatest (by omega) hfrom
    by_contra hne
    have hpiece : hashPoint digestLength (x (i + 1)) ≤ point :=
      (h.hashPoint_le (by omega) (by omega)).trans hlow
    rcases hto with hlt | ⟨hone, -⟩
    · exact absurd hpiece (not_le.2 hlt)
    · have := (h.beq_one_iff him).1 hone
      omega

end FractionChain

/-! ### Nested samples -/

/-- **A greater upper fraction keeps what was in the sample.** -/
theorem admits_of_le {digest : Bytes → Bytes} {seed : String} {f a b : Float} {key : Bytes}
    {timestamp : Nat} (ha : IsFraction a) (hb : IsFraction b) (hab : valueOf a ≤ valueOf b)
    (h : (SampleFilter.ofSample ⟨seed, f, a, none, none⟩).admits digest key timestamp = true) :
    (SampleFilter.ofSample ⟨seed, f, b, none, none⟩).admits digest key timestamp = true := by
  rw [admits_iff] at h ⊢
  obtain ⟨hlow, hlt | ⟨hone, heq⟩⟩ := h
  · exact ⟨hlow, Or.inl (hlt.trans_le (hashPoint_le ha hb hab _))⟩
  · -- an upper fraction of one can only be replaced by one
    have hvalue := (valueOf_of_beq hone isFinite_one).2
    rw [valueOf_one] at hvalue
    have hsame : valueOf a = valueOf b := le_antisymm hab (by rw [hvalue]; exact hb.le_one)
    have hdouble : a = b := eq_of_valueOf_eq ha.finite hb.finite hsame (by rw [hvalue]; norm_num)
    rw [← hdouble]
    exact ⟨hlow, Or.inr ⟨hone, heq⟩⟩

/-- **Adjacent samples partition the keys, and nested ones are nested.**  For a digest of 32 bytes
and any seed: of the samples between neighbours of a chain of fractions, all of which can be built,
exactly one holds a given key at a given timestamp; and a sample holds whatever is held by the one
with the same lower and a lesser upper fraction. -/
theorem adjacent_samples (digest : Bytes → Bytes)
    (hdigest : ∀ bytes, (digest bytes).length = digestLength) (seed : String) :
    (∀ (m : Nat) (x : Nat → Float), FractionChain m x →
      (∀ i < m, ∃ s, Sample.make seed (x i) (x (i + 1)) = .ok s) ∧
        ∀ (key : Bytes) (timestamp : Nat), ∃! i, i < m ∧
          ∃ s, Sample.make seed (x i) (x (i + 1)) = .ok s ∧
            (SampleFilter.ofSample s).admits digest key timestamp = true) ∧
    ∀ f a b : Float, Float.ofNat 0 ≤ f → f ≤ Float.ofNat 1 → Float.ofNat 0 ≤ a → a ≤ b →
      b ≤ Float.ofNat 1 →
      ∃ s t, Sample.make seed f a = .ok s ∧ Sample.make seed f b = .ok t ∧
        ∀ (key : Bytes) (timestamp : Nat),
          (SampleFilter.ofSample s).admits digest key timestamp = true →
            (SampleFilter.ofSample t).admits digest key timestamp = true := by
  constructor
  · intro m x h
    have hmake : ∀ i < m, Sample.make seed (x i) (x (i + 1)) =
        .ok ⟨seed, x i, x (i + 1), none, none⟩ :=
      fun i hi => make_eq_ok seed (h.isFraction hi.le) (h.isFraction hi)
    refine ⟨fun i hi => ⟨_, hmake i hi⟩, ?_⟩
    intro key timestamp
    obtain ⟨i, ⟨hi, hadmits⟩, hunique⟩ := h.existsUnique digest seed key timestamp (hdigest _)
    refine ⟨i, ⟨hi, _, hmake i hi, hadmits⟩, ?_⟩
    rintro j ⟨hj, s, hs, hadmits⟩
    obtain rfl := Except.ok.inj ((hmake j hj).symm.trans hs)
    exact hunique j ⟨hj, hadmits⟩
  · intro f a b hf hf' ha hab hb
    have hfraction := isFraction_iff.2 ⟨hf, hf'⟩
    have ha' := isFraction_iff.2 ⟨ha, double_le_trans hab hb⟩
    have hb' := isFraction_iff.2 ⟨double_le_trans ha hab, hb⟩
    refine ⟨_, _, make_eq_ok seed hfraction ha', make_eq_ok seed hfraction hb', ?_⟩
    intro key timestamp hadmits
    exact admits_of_le ha' hb' ((le_iff_valueOf_le ha'.finite hb'.finite).1 hab) hadmits

theorem length_sha256 (message : Bytes) : (Sha256.digest message).length = digestLength := by
  simp [Sha256.digest, Sha256.State.toBytes, digestLength]

/-- The two halves of the space of digests. -/
def halves : Nat → Float
  | 0 => Float.ofNat 0
  | 1 => Float.ofScientific 5 true 1
  | _ => Float.ofNat 1

theorem fractionChain_halves : FractionChain 2 halves where
  first := by decide
  last := by decide
  ordered := by decide
  proper := by decide

theorem adjacent_samples_halves :
    (∃! i, i < 2 ∧ ∃ s, Sample.make "halves" (halves i) (halves (i + 1)) = .ok s ∧
      (SampleFilter.ofSample s).admits Sha256.digest [1] 0 = true) ∧
    ∃ s t, Sample.make "halves" (halves 0) (halves 1) = .ok s ∧
      Sample.make "halves" (halves 0) (halves 2) = .ok t ∧
      ∀ (key : Bytes) (timestamp : Nat),
        (SampleFilter.ofSample s).admits Sha256.digest key timestamp = true →
          (SampleFilter.ofSample t).admits Sha256.digest key timestamp = true := by
  obtain ⟨hchain, hnested⟩ := adjacent_samples Sha256.digest length_sha256 "halves"
  exact ⟨(hchain 2 halves fractionChain_halves).2 [1] 0,
    hnested (halves 0) (halves 1) (halves 2) (by decide) (by decide) (by decide) (by decide)
      (by decide)⟩

end Strata
