/-
**Summaries of numbers.**

A summary keeps how many numbers were seen, their mean, the sum of their squared deviations from
it, their extremes and their sum.  One number is added by updating the mean with its deviation;
two summaries are merged from their means and deviations alone, so the numbers themselves are never
needed again.  The steps are written over any arithmetic: doubles are the one that runs, and exact
arithmetic shows what the steps compute.

* `Arithmetic` — what a summary needs of its numbers, with the instance for `Float`;
* `Summary`, `Summary.empty`, `Summary.add`, `Summary.merge` — building summaries;
* `Summary.ofList`, `Summary.ofParts` — of a list of numbers, of a list of summaries;
* `Summary.average`, `Summary.variance`, … — reading them.
-/

import Strata.Number.Binary

set_option relaxedAutoImplicit false
set_option autoImplicit false

namespace Strata

/-- The arithmetic of a summary. -/
class Arithmetic (K : Type) extends Add K, Sub K, Mul K, Div K where
  zero : K
  /-- The number that a count is. -/
  ofCount : Nat → K
  /-- The lesser of two numbers. -/
  least : K → K → K
  /-- The greater of two numbers. -/
  greatest : K → K → K
  /-- What stands for an extreme or a mean of no numbers. -/
  absent : K

instance : Arithmetic Float where
  zero := Float.ofBits 0
  ofCount := Float.ofNat
  least := Number.least
  greatest := Number.greatest
  absent := Float.ofBits 0x7ff8000000000000

/-- What is kept of a stream of numbers. -/
structure Summary (K : Type) where
  count : Nat
  mean : K
  /-- The sum of the squared deviations from the mean. -/
  deviations : K
  min : K
  max : K
  sum : K

namespace Summary

variable {K : Type} [Arithmetic K]

/-- The summary of no numbers. -/
def empty : Summary K :=
  ⟨0, Arithmetic.zero, Arithmetic.zero, Arithmetic.absent, Arithmetic.absent, Arithmetic.zero⟩

/-- The summary with one more number. -/
def add (s : Summary K) (x : K) : Summary K :=
  let count := s.count + 1
  let delta := x - s.mean
  let mean := s.mean + delta / Arithmetic.ofCount count
  { count := count
    mean := mean
    deviations := s.deviations + delta * (x - mean)
    min := if count = 1 then x else Arithmetic.least s.min x
    max := if count = 1 then x else Arithmetic.greatest s.max x
    sum := s.sum + x }

/-- The summary of the numbers of two summaries. -/
def merge (a b : Summary K) : Summary K :=
  if b.count = 0 then a
  else if a.count = 0 then b
  else
    let na : K := Arithmetic.ofCount a.count
    let nb : K := Arithmetic.ofCount b.count
    let n := na + nb
    let delta := b.mean - a.mean
    { count := a.count + b.count
      mean := a.mean + delta * nb / n
      deviations := a.deviations + (b.deviations + delta * delta * na * nb / n)
      min := Arithmetic.least a.min b.min
      max := Arithmetic.greatest a.max b.max
      sum := a.sum + b.sum }

/-- The summary of a list of numbers. -/
def ofList (xs : List K) : Summary K := xs.foldl add empty

/-- The summary of all the numbers of a list of summaries. -/
def ofParts (parts : List (Summary K)) : Summary K := parts.foldl merge empty

@[simp] theorem merge_empty (s : Summary K) : s.merge empty = s := by
  simp [merge, empty]

@[simp] theorem count_add (s : Summary K) (x : K) : (s.add x).count = s.count + 1 := rfl

/-! ### Reading -/

/-- The arithmetic mean. -/
def average (s : Summary K) : K := if s.count = 0 then Arithmetic.absent else s.mean

/-- The sample variance: the squared deviations over one less than the count, and zero for one
number. -/
def variance (s : Summary K) : K :=
  if s.count = 0 then Arithmetic.absent
  else if s.count = 1 then Arithmetic.zero
  else s.deviations / Arithmetic.ofCount (s.count - 1)

/-- The squared deviations over the count. -/
def populationVariance (s : Summary K) : K :=
  if s.count = 0 then Arithmetic.absent else s.deviations / Arithmetic.ofCount s.count

/-- The square root of the sample variance. -/
def standardDeviation (s : Summary Float) : Float := s.variance.sqrt

end Summary

end Strata
