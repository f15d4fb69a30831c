/-
**Patterns.**

A pattern says which stretches of a text it matches.  It is built from classes of characters, of
which one is matched at a time, from assertions about the place between two characters, and from
repetition, sequence and choice.  Which of several matches would be preferred is not kept, for only
whether there is one is ever asked.

* `CharClass`, `CharClass.has` — classes of characters and membership;
* `Assertion` — conditions on a place;
* `Pattern` — patterns;
* `Pattern.depth`, `Pattern.size` — how deep a pattern nests, and how much it unfolds to.
-/

import Strata.Text.Blank
import Strata.Text.CaseFold
import Strata.Text.Category
import Strata.Text.Script

set_option relaxedAutoImplicit false
set_option autoImplicit false

namespace Strata

/-! ### Characters -/

/-- A property that a character has or lacks. -/
inductive CharProperty where
  | ofCategories (categories : List Text.Category)
  | ofScript (name : String)
  | word
  | blank
  | assigned
  | alphabetic
  | lowercase
  | uppercase
  deriving DecidableEq, Repr

/-- The character has the property. -/
def CharProperty.holds : CharProperty → Char → Bool
  | ofCategories categories, c => Text.hasAny categories c
  | ofScript name, c =>
    match Text.scripts.find? fun script => script.names.contains name with
    | some script => Text.inRanges script.ranges c
    | none => false
  | word, c => Text.isWord c
  | blank, c => Text.isBlank c
  | assigned, c => Text.isAssigned c
  | alphabetic, c => Text.isAlphabetic c
  | lowercase, c => Text.isLowercase c
  | uppercase, c => Text.isUppercase c

/-- A class of characters. -/
inductive CharClass where
  | nothing
  /-- The characters whose code points lie in a closed interval. -/
  | range (low high : Nat)
  | property (p : CharProperty)
  | complement (c : CharClass)
  | union (a b : CharClass)
  | intersection (a b : CharClass)
  | difference (a b : CharClass)
  | symmetricDifference (a b : CharClass)
  /-- The characters that differ only in case from one of the class. -/
  | folded (c : CharClass)
  deriving Repr

namespace CharClass

/-- The character belongs to the class. -/
def has : CharClass → Char → Bool
  | nothing, _ => false
  | range low high, c => decide (low ≤ c.toNat) && decide (c.toNat ≤ high)
  | property p, c => p.holds c
  | complement a, c => !has a c
  | union a b, c => has a c || has b c
  | intersection a b, c => has a c && has b c
  | difference a b, c => has a c && !has b c
  | symmetricDifference a b, c => has a c != has b c
  | folded a, c => (Text.caseVariants c).any (has a)

/-- All characters. -/
def all : CharClass := complement nothing

/-- One character. -/
def single (c : Char) : CharClass := range c.toNat c.toNat

/-- The characters of a list of intervals. -/
def ofRanges (ranges : List (Nat × Nat)) : CharClass :=
  ranges.foldr (fun r rest => union (range r.1 r.2) rest) nothing

/-- The class or its complement. -/
def negatedIf (negated : Bool) (c : CharClass) : CharClass := if negated then complement c else c

/-- The class, or all that differ only in case from its characters. -/
def foldedIf (ignoreCase : Bool) (c : CharClass) : CharClass := if ignoreCase then folded c else c

/-- How many bytes the code points up to one need. -/
def encodedLength (n : Nat) : Nat :=
  if n < 0x80 then 1 else if n < 0x800 then 2 else if n < 0x10000 then 3 else 4

/-- A measure of how many steps it takes to read a character of the class byte by byte. -/
def size : CharClass → Nat
  | nothing => 1
  | range _ high => encodedLength high
  | property _ => 1400
  | complement a => size a + 4
  | union a b => size a + size b
  | intersection a b => size a + size b
  | difference a b => size a + size b
  | symmetricDifference a b => size a + size b
  | folded a => 2 * size a

end CharClass

/-! ### Places -/

/-- A condition on a place in a text. -/
inductive Assertion where
  | textStart
  | textEnd
  | lineStart
  | lineEnd
  /-- The start of a line that a carriage return, a line feed or both end. -/
  | lineStartAny
  /-- The end of a line that a carriage return, a line feed or both end. -/
  | lineEndAny
  /-- Exactly one side is a character of the class. -/
  | boundary (word : CharClass)
  /-- Both sides or neither are characters of the class. -/
  | noBoundary (word : CharClass)
  | wordStart (word : CharClass)
  | wordEnd (word : CharClass)
  /-- The character before is not of the class. -/
  | noWordBefore (word : CharClass)
  /-- The character behind is not of the class. -/
  | noWordBehind (word : CharClass)
  deriving Repr

/-- The condition holds between the character `before` and the character `behind`, where `none`
is an end of the text. -/
def Assertion.holds (before behind : Option Char) : Assertion → Bool
  | textStart => before.isNone
  | textEnd => behind.isNone
  | lineStart => before.isNone || before == some '\n'
  | lineEnd => behind.isNone || behind == some '\n'
  | lineStartAny =>
    before.isNone || before == some '\n' || (before == some '\r' && behind != some '\n')
  | lineEndAny =>
    behind.isNone || behind == some '\r' || (behind == some '\n' && before != some '\r')
  | boundary word => before.any word.has != behind.any word.has
  | noBoundary word => before.any word.has == behind.any word.has
  | wordStart word => !before.any word.has && behind.any word.has
  | wordEnd word => before.any word.has && !behind.any word.has
  | noWordBefore word => !before.any word.has
  | noWordBehind word => !behind.any word.has

/-! ### Patterns -/

/-- A pattern. -/
inductive Pattern where
  | empty
  | oneOf (c : CharClass)
  | place (a : Assertion)
  | group (p : Pattern)
  /-- At least `min` and at most `max` matches, one behind the other. -/
  | repetition (p : Pattern) (min : Nat) (max : Option Nat)
  | sequence (parts : List Pattern)
  | choice (parts : List Pattern)

instance : Inhabited Pattern := ⟨.empty⟩

namespace Pattern

mutual

/-- How deep groups, repetitions, sequences and choices nest. -/
def depth : Pattern → Nat
  | empty | oneOf _ | place _ => 0
  | group p => depth p + 1
  | repetition p _ _ => depth p + 1
  | sequence parts => depths parts + 1
  | choice parts => depths parts + 1

/-- The greatest depth of a list of patterns. -/
def depths : List Pattern → Nat
  | [] => 0
  | p :: parts => max (depth p) (depths parts)

end

mutual

/-- How many steps a pattern has when its repetitions are written out. -/
def size : Pattern → Nat
  | empty => 1
  | oneOf c => c.size
  | place _ => 1
  | group p => size p + 2
  | repetition p min none => (min + 1) * (size p + 1)
  | repetition p min (some max) => min * size p + (max - min) * (size p + 1)
  | sequence parts => sizes parts
  | choice parts => sizes parts + 1

/-- The sizes of a list of patterns, together. -/
def sizes : List Pattern → Nat
  | [] => 0
  | p :: parts => size p + sizes parts

end

end Pattern

end Strata
