/-
**Searching a text for a pattern.**

A pattern takes a set of places in a text to the set of the places where a match that starts at one
of them may end.  Sequence is composition, choice is union, and a repetition without limit is the
closure: it is reached after as many rounds as there are places, for every round before that finds
a new one.  A text contains a match when some end is reached from some place.

* `Pattern.ends` — the ends of the matches from a set of places;
* `Pattern.found` — whether a text contains a match.
-/

import Strata.Pattern.Basic

set_option relaxedAutoImplicit false
set_option autoImplicit false

namespace Strata.Pattern

/-! ### Sets of places -/

/-- A set of places, without repetitions. -/
abbrev Places := List Nat

/-- The places of both sets, without repetitions. -/
def join (a b : Places) : Places :=
  b.foldl (fun known n => if known.contains n then known else n :: known) a

/-- The places of the first set that are not in the second. -/
def without (a b : Places) : Places := a.filter fun n => !b.contains n

/-- The places reached from `frontier` by any number of steps, given that those reached from the
rest of `known` are known already; at most `fuel` rounds. -/
def closure (step : Places → Places) : Nat → Places → Places → Places
  | 0, _, known => known
  | fuel + 1, frontier, known =>
    let new := without (step frontier) known
    if new.isEmpty then known else closure step fuel new (join known new)

/-- The places reached by exactly `count` steps, or the empty set once it is reached. -/
def iterate (step : Places → Places) : Nat → Places → Places
  | 0, places => places
  | count + 1, places => if places.isEmpty then [] else iterate step count (step places)

/-- The places reached by at most `count` steps. -/
def iterateUpTo (step : Places → Places) : Nat → Places → Places → Places
  | 0, _, known => known
  | count + 1, frontier, known =>
    let new := without (step frontier) known
    if new.isEmpty then known else iterateUpTo step count new (join known new)

/-! ### Matching -/

/-- The condition holds at a place of the text. -/
def holdsAt (text : Array Char) (a : Assertion) (n : Nat) : Bool :=
  a.holds (if n = 0 then none else text[n - 1]?) text[n]?

mutual

/-- The ends of the matches of a pattern that start at one of the places. -/
def ends (text : Array Char) : Pattern → Places → Places
  | empty, places => places
  | oneOf c, places =>
    places.filterMap fun n =>
      match text[n]? with
      | some char => if c.has char then some (n + 1) else none
      | none => none
  | place a, places => places.filter (holdsAt text a)
  | group p, places => ends text p places
  | repetition p min max, places =>
    let step := ends text p
    let start := iterate step min places
    match max with
    | none => closure step (text.size + 1) start start
    | some max => iterateUpTo step (max - min) start start
  | sequence parts, places => endsOfSequence text parts places
  | choice parts, places => endsOfChoice text parts places

/-- The ends of the matches of patterns one behind the other. -/
def endsOfSequence (text : Array Char) : List Pattern → Places → Places
  | [], places => places
  | p :: parts, places => endsOfSequence text parts (ends text p places)

/-- The ends of the matches of any of several patterns. -/
def endsOfChoice (text : Array Char) : List Pattern → Places → Places
  | [], _ => []
  | p :: parts, places => join (ends text p places) (endsOfChoice text parts places)

end

/-- Some stretch of the text matches the pattern. -/
def found (p : Pattern) (text : String) : Bool :=
  let chars := text.toList.toArray
  !(ends chars p (List.range (chars.size + 1))).isEmpty

end Strata.Pattern
