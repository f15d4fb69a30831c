/-
**Summaries in exact arithmetic.**

Over the rational numbers the two ways to a summary, number by number and part by part, keep one
closed form: the count, the sum and the extremes of the numbers, their arithmetic mean, and the sum
of their squared deviations from it.  One more number, or a second list of them, changes the mean
and the deviations just as the steps do; empty lists, which the steps pass over, change nothing.  So
the summary of many parts is that of all their numbers, in whatever order they come.

* `Exact` — rational numbers, with one thing more that stands for no number;
* `Exact.mean`, `Exact.squares`, `Exact.summary` — the closed form;
* `Exact.summary_merge`, `Exact.summary_add` — **one step** of either way;
* `Exact.ofList_eq`, `Exact.ofParts_eq`, `Exact.summary_perm` — what the steps build, in any order;
* `Exact.merged_parts` — **the summary of many parts**, and what is read off it.
-/

import Mathlib.Algebra.BigOperators.Group.List.Basic
import Mathlib.Algebra.Order.Ring.Rat
import Mathlib.Tactic.FieldSimp
import Mathlib.Tactic.Positivity
import Mathlib.Tactic.Ring
import Strata.Summary

set_option relaxedAutoImplicit false
set_option autoImplicit false

namespace Strata

/-! ### Exact numbers -/

/-- A rational number, or no number. -/
inductive Exact where
  | number (q : ℚ)
  | absent
  deriving DecidableEq

namespace Exact

/-- An operation on rational numbers; there is no result if a number is missing. -/
def lift (f : ℚ → ℚ → ℚ) : Exact → Exact → Exact
  | number p, number q => number (f p q)
  | _, _ => absent

/-- An operation on those numbers that there are. -/
def choose (f : ℚ → ℚ → ℚ) : Exact → Exact → Exact
  | number p, number q => number (f p q)
  | absent, b => b
  | a, absent => a

instance : Arithmetic Exact where
  add := lift (· + ·)
  sub := lift (· - ·)
  mul := lift (· * ·)
  div a b := if b = number 0 then absent else lift (· / ·) a b
  zero := number 0
  ofCount n := number n
  least := choose min
  greatest := choose max
  absent := absent

variable (p q : ℚ)

@[simp] theorem number_add : number p + number q = number (p + q) := rfl

@[simp] theorem number_sub : number p - number q = number (p - q) := rfl

@[simp] theorem number_mul : number p * number q = number (p * q) := rfl

theorem number_div {q : ℚ} (h : q ≠ 0) : number p / number q = number (p / q) := by
  have hne : number q ≠ number 0 := fun heq => h (by injection heq)
  show (if number q = number 0 then absent else number (p / q)) = _
  rw [if_neg hne]

@[simp] theorem zero_eq : (Arithmetic.zero : Exact) = number 0 := rfl

@[simp] theorem absent_eq : (Arithmetic.absent : Exact) = absent := rfl

@[simp] theorem ofCount_eq (n : ℕ) : (Arithmetic.ofCount n : Exact) = number n := rfl

@[simp] theorem least_eq (a b : Exact) : Arithmetic.least a b = choose min a b := rfl

@[simp] theorem greatest_eq (a b : Exact) : Arithmetic.greatest a b = choose max a b := rfl

/-- The number that there is, if there is one. -/
def ofOption : Option ℚ → Exact
  | some q => number q
  | none => absent

/-! ### The closed form -/

variable (xs ys : List ℚ)

/-- The arithmetic mean; of no numbers, zero. -/
def mean : ℚ := xs.sum / xs.length

/-- The sum of the squared deviations from the mean. -/
def squares : ℚ := (xs.map fun x => (x - mean xs) ^ 2).sum

/-- The summary that a list of numbers should have. -/
def summary : Summary Exact where
  count := xs.length
  mean := number (mean xs)
  deviations := number (squares xs)
  min := ofOption xs.min?
  max := ofOption xs.max?
  sum := number xs.sum

/-- Squared deviations from any number. -/
theorem sum_squares_from (c : ℚ) : (xs.map fun x => (x - c) ^ 2).sum =
    (xs.map (· ^ 2)).sum - 2 * c * xs.sum + xs.length * c ^ 2 := by
  induction xs with
  | nil => simp
  | cons x xs ih =>
      simp only [List.map_cons, List.sum_cons, List.length_cons, ih]
      push_cast
      ring

/-- The squared deviations are known from the sum of the squares and the sum. -/
theorem squares_eq : squares xs = (xs.map (· ^ 2)).sum - xs.sum ^ 2 / xs.length := by
  rw [squares, sum_squares_from, mean]
  rcases eq_or_ne xs [] with rfl | hne
  · simp
  · have hlength : (xs.length : ℚ) ≠ 0 := by simpa using hne
    field_simp
    ring

variable {xs ys}

theorem length_pos (h : xs ≠ []) : (0 : ℚ) < xs.length := by
  exact_mod_cast List.length_pos_iff.2 h

theorem mean_append (hx : xs ≠ []) (hy : ys ≠ []) :
    mean (xs ++ ys) = mean xs + (mean ys - mean xs) * ys.length / (xs.length + ys.length) := by
  have hxs := length_pos hx
  have hys := length_pos hy
  simp only [mean, List.sum_append, List.length_append, Nat.cast_add]
  field_simp
  ring

/-- **The squared deviations of two lists** are those of either and what their means are apart. -/
theorem squares_append (hx : xs ≠ []) (hy : ys ≠ []) :
    squares (xs ++ ys) = squares xs + (squares ys +
      (mean ys - mean xs) * (mean ys - mean xs) * xs.length * ys.length /
        (xs.length + ys.length)) := by
  have hxs := length_pos hx
  have hys := length_pos hy
  simp only [squares_eq, mean, List.map_append, List.sum_append, List.length_append, Nat.cast_add]
  field_simp
  ring

/-- One more number draws the mean towards it. -/
theorem mean_concat (xs : List ℚ) (x : ℚ) :
    mean (xs ++ [x]) = mean xs + (x - mean xs) / (xs.length + 1) := by
  rcases eq_or_ne xs [] with rfl | hx
  · simp [mean]
  · have hone : mean [x] = x := by simp [mean]
    rw [mean_append hx (List.cons_ne_nil x []), hone]
    simp

/-- **One more number** adds the product of what it lies apart from the mean before and after. -/
theorem squares_concat (xs : List ℚ) (x : ℚ) :
    squares (xs ++ [x]) = squares xs + (x - mean xs) * (x - mean (xs ++ [x])) := by
  rcases eq_or_ne xs [] with rfl | hx
  · simp [squares, mean]
  · have hxs := length_pos hx
    have hone : mean [x] = x ∧ squares [x] = 0 := by simp [squares, mean]
    rw [squares_append hx (List.cons_ne_nil x []), mean_concat, hone.1, hone.2,
      List.length_singleton, Nat.cast_one]
    field_simp
    ring

theorem choose_assoc {f : ℚ → ℚ → ℚ} (hf : ∀ p q r, f (f p q) r = f p (f q r)) (a b c : Exact) :
    choose f (choose f a b) c = choose f a (choose f b c) := by
  cases a <;> cases b <;> cases c <;> simp [choose, hf]

/-- An extreme of two lists is that of their extremes. -/
theorem least_append (xs ys : List ℚ) :
    ofOption (xs ++ ys).min? = choose min (ofOption xs.min?) (ofOption ys.min?) := by
  have hcons : ∀ (x : ℚ) xs,
      ofOption (x :: xs).min? = choose min (number x) (ofOption xs.min?) := by
    intro x xs
    rw [List.min?_cons]
    cases xs.min? <;> rfl
  induction xs with
  | nil => cases h : ys.min? <;> simp [h, ofOption, choose]
  | cons x xs ih => rw [List.cons_append, hcons, hcons, ih, choose_assoc min_assoc]

theorem greatest_append (xs ys : List ℚ) :
    ofOption (xs ++ ys).max? = choose max (ofOption xs.max?) (ofOption ys.max?) := by
  have hcons : ∀ (x : ℚ) xs,
      ofOption (x :: xs).max? = choose max (number x) (ofOption xs.max?) := by
    intro x xs
    rw [List.max?_cons]
    cases xs.max? <;> rfl
  induction xs with
  | nil => cases h : ys.max? <;> simp [h, ofOption, choose]
  | cons x xs ih => rw [List.cons_append, hcons, hcons, ih, choose_assoc max_assoc]

/-! ### Steps -/

/-- **The numbers of two lists.** -/
theorem summary_merge (xs ys : List ℚ) :
    (summary xs).merge (summary ys) = summary (xs ++ ys) := by
  have hcount : ∀ {zs : List ℚ}, zs ≠ [] → ¬ (summary zs).count = 0 := by
    intro zs hzs
    simpa [summary] using hzs
  rcases eq_or_ne ys [] with rfl | hy
  · rw [List.append_nil]
    rfl
  rcases eq_or_ne xs [] with rfl | hx
  · rw [Summary.merge, if_neg (hcount hy)]
    rfl
  have hboth : (xs.length + ys.length : ℚ) ≠ 0 := by
    have := length_pos hx
    have := length_pos hy
    positivity
  rw [Summary.merge, if_neg (hcount hy), if_neg (hcount hx)]
  simp only [summary, number_add, number_sub, number_mul, ofCount_eq, number_div _ hboth, least_eq,
    greatest_eq, ← least_append, ← greatest_append, ← mean_append hx hy, ← squares_append hx hy,
    List.length_append, List.sum_append]

/-- **One more number.** -/
theorem summary_add (xs : List ℚ) (x : ℚ) : (summary xs).add (number x) = summary (xs ++ [x]) := by
  have hcount : ((xs.length + 1 : ℕ) : ℚ) ≠ 0 := by positivity
  have hmean : (summary xs).mean + (number x - (summary xs).mean) /
      Arithmetic.ofCount ((summary xs).count + 1) = number (mean (xs ++ [x])) := by
    show number (mean xs) + (number x - number (mean xs)) / number ((xs.length + 1 : ℕ) : ℚ) = _
    rw [number_sub, number_div _ hcount, number_add, mean_concat]
    push_cast
    rfl
  have hmin : (if (summary xs).count + 1 = 1 then number x else
      Arithmetic.least (summary xs).min (number x)) = ofOption (xs ++ [x]).min? := by
    rw [least_append]
    split
    · next h =>
      obtain rfl : xs = [] := by simpa [summary] using h
      rfl
    · rfl
  have hmax : (if (summary xs).count + 1 = 1 then number x else
      Arithmetic.greatest (summary xs).max (number x)) = ofOption (xs ++ [x]).max? := by
    rw [greatest_append]
    split
    · next h =>
      obtain rfl : xs = [] := by simpa [summary] using h
      rfl
    · rfl
  have hdeviations : number (squares xs) + (number x - number (mean xs)) *
      (number x - number (mean (xs ++ [x]))) = number (squares (xs ++ [x])) := by
    rw [number_sub, number_sub, number_mul, number_add, squares_concat]
  have hadd : (summary xs).add (number x) =
      ⟨xs.length + 1, _, number (squares xs) + (number x - number (mean xs)) * (number x - _), _, _,
        number xs.sum + number x⟩ := rfl
  rw [hadd, hmean, hmin, hmax, hdeviations, number_add]
  simp [summary]

/-! ### Whole summaries -/

theorem empty_eq : (Summary.empty : Summary Exact) = summary [] := by
  simp [Summary.empty, summary, mean, squares, ofOption]

/-- **A summary built number by number.** -/
theorem ofList_eq (xs : List ℚ) : Summary.ofList (xs.map number) = summary xs := by
  have hfold : ∀ ys, (xs.map number).foldl Summary.add (summary ys) = summary (ys ++ xs) := by
    induction xs with
    | nil => intro ys; rw [List.append_nil]; rfl
    | cons x xs ih =>
        intro ys
        rw [List.map_cons, List.foldl_cons, summary_add, ih, List.append_assoc,
          List.singleton_append]
  rw [Summary.ofList, empty_eq, hfold, List.nil_append]

/-- **A summary merged from parts.** -/
theorem ofParts_eq (xss : List (List ℚ)) :
    Summary.ofParts (xss.map fun xs => Summary.ofList (xs.map number)) = summary xss.flatten := by
  have hfold : ∀ ys, (xss.map summary).foldl Summary.merge (summary ys) =
      summary (ys ++ xss.flatten) := by
    induction xss with
    | nil => intro ys; rw [List.flatten_nil, List.append_nil]; rfl
    | cons xs xss ih =>
        intro ys
        rw [List.map_cons, List.foldl_cons, summary_merge, ih, List.append_assoc,
          List.flatten_cons]
  simp only [ofList_eq]
  rw [Summary.ofParts, empty_eq, hfold, List.nil_append]

/-- **The order of the numbers does not count.** -/
theorem summary_perm {xs ys : List ℚ} (h : xs.Perm ys) : summary xs = summary ys := by
  have hmean : mean xs = mean ys := by rw [mean, mean, h.sum_eq, h.length_eq]
  have hsquares : squares xs = squares ys := by
    rw [squares, squares, hmean]
    exact (h.map _).sum_eq
  have hmin : xs.min? = ys.min? := by
    ext q
    simp only [List.min?_eq_some_iff, h.mem_iff]
  have hmax : xs.max? = ys.max? := by
    ext q
    simp only [List.max?_eq_some_iff, h.mem_iff]
  rw [summary, summary, h.length_eq, hmean, hsquares, hmin, hmax, h.sum_eq]

/-! ### Reading -/

theorem count_eq_zero_iff (xs : List ℚ) : (summary xs).count = 0 ↔ xs = [] :=
  List.length_eq_zero_iff

theorem average_summary (xs : List ℚ) :
    (summary xs).average = if xs = [] then absent else number (mean xs) := by
  simp only [Summary.average, count_eq_zero_iff]
  rfl

theorem variance_summary (xs : List ℚ) : (summary xs).variance =
    if xs = [] then absent else if xs.length = 1 then number 0
      else number (squares xs / (xs.length - 1)) := by
  have hone : (summary xs).count = 1 ↔ xs.length = 1 := Iff.rfl
  simp only [Summary.variance, count_eq_zero_iff, hone]
  split_ifs with hnil hlength
  · rfl
  · rfl
  · have hpos := List.length_pos_iff.2 hnil
    have hcast : ((xs.length - 1 : ℕ) : ℚ) = xs.length - 1 := by
      push_cast [Nat.cast_sub hpos]
      rfl
    have hne : ((xs.length - 1 : ℕ) : ℚ) ≠ 0 := by
      have : xs.length - 1 ≠ 0 := by omega
      exact_mod_cast this
    show number (squares xs) / number ((xs.length - 1 : ℕ) : ℚ) = _
    rw [number_div _ hne, hcast]

theorem populationVariance_summary (xs : List ℚ) : (summary xs).populationVariance =
    if xs = [] then absent else number (squares xs / xs.length) := by
  simp only [Summary.populationVariance, count_eq_zero_iff]
  split_ifs with hnil
  · rfl
  · exact number_div _ (length_pos hnil).ne'

/-- **A summary of many parts is that of all their numbers.**  The summaries of lists of rational
numbers, merged, are the summary that is built number by number over all lists one after another:
its count, sum and extremes are those of all numbers, its mean is theirs and its deviations are from
that mean.  The order of the lists does not count, nor that of the numbers in a list.  What is read
off is the arithmetic mean, the squared deviations over one less than the count, with zero for one
number, and over the count; of no numbers there is none of these. -/
theorem merged_parts (xss : List (List ℚ)) :
    let merge : List (List ℚ) → Summary Exact := fun xss =>
      Summary.ofParts (xss.map fun xs => Summary.ofList (xs.map number))
    let all := xss.flatten
    merge xss = Summary.ofList (all.map number) ∧
    merge xss = ⟨all.length, number (mean all), number (squares all), ofOption all.min?,
      ofOption all.max?, number all.sum⟩ ∧
    (∀ yss zss : List (List ℚ), xss.Perm yss → List.Forall₂ List.Perm yss zss →
      merge zss = merge xss) ∧
    (merge xss).average = (if all = [] then absent else number (mean all)) ∧
    (merge xss).variance = (if all = [] then absent else if all.length = 1 then number 0
      else number (squares all / (all.length - 1 : ℚ))) ∧
    (merge xss).populationVariance =
      (if all = [] then absent else number (squares all / all.length)) := by
  intro merge all
  have hmerge : ∀ xss, merge xss = summary xss.flatten := ofParts_eq
  refine ⟨(hmerge xss).trans (ofList_eq all).symm, hmerge xss, ?_, ?_, ?_, ?_⟩
  · intro yss zss hperm hinner
    rw [hmerge, hmerge]
    exact summary_perm (hperm.flatten.trans (List.Perm.flatten_congr hinner)).symm
  · rw [hmerge, average_summary]
  · rw [hmerge, variance_summary]
  · rw [hmerge, populationVariance_summary]

/-- The numbers 2 and 4, and 4, 4, 5, 5, 7 and 9, around an empty part. -/
example :
    let merged := Summary.ofParts
      ([[2, 4], [], [4, 4, 5, 5, 7, 9]].map fun xs => Summary.ofList (xs.map number))
    merged.average = number 5 ∧ merged.variance = number (32 / 7) ∧
      merged.populationVariance = number 4 := by
  decide +kernel

end Exact

end Strata
