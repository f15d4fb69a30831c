/-
**Filtering by pattern.**

An entry is kept when the texts of its key and of its value hold matches of the patterns given for
them; without a pattern anything is kept.  Keys and values are decoded to be shown, the key first,
and a value only if the key has passed.
-/

import Strata.Operator.Basic
import Strata.Pattern.Match
import Strata.Pattern.Reader
import Strata.Value.Text

set_option relaxedAutoImplicit false
set_option autoImplicit false

namespace Strata

/-- What a filter by pattern looks for. -/
structure PatternFilter where
  keyCodec : Codec
  valueCodec : Codec
  keyPattern : Option Pattern
  valuePattern : Option Pattern

namespace PatternFilter

def operatorId : String := "regex_filter"

def keyOption : String := "key_regex"

def valueOption : String := "value_regex"

/-- The pattern that an option spells, if it is there. -/
def readPattern (options : Options) (name : String) : Except OperatorError (Option Pattern) :=
  match options.get? name with
  | none => .ok none
  | some text =>
    match Pattern.read text with
    | .ok p => .ok (some p)
    | .error fault => .error (.invalidOption name text fault.message)

/-- The filter that options describe. -/
def ofOptions (options : Options) : Except OperatorError PatternFilter := do
  let keyCodec ← options.codec Options.keyCodec
  let valueCodec ← options.codec Options.valueInputCodec
  let keyPattern ← readPattern options keyOption
  let valuePattern ← readPattern options valueOption
  return ⟨keyCodec, valueCodec, keyPattern, valuePattern⟩

/-- The text of what bytes encode holds a match. -/
def matchesText (codec : Codec) (pattern : Option Pattern) (bytes : Bytes) :
    Except OperatorError Bool :=
  match pattern with
  | none => .ok true
  | some p => (OperatorError.ofCodec (codec.decode bytes)).map fun v => p.found v.render

/-- The entry passes. -/
def accepts (f : PatternFilter) (e : Entry) : Except OperatorError Bool :=
  match matchesText f.keyCodec f.keyPattern e.key with
  | .error error => .error error
  | .ok false => .ok false
  | .ok true => matchesText f.valueCodec f.valuePattern e.value

/-- The entries that pass. -/
def run (f : PatternFilter) : List Entry → Except OperatorError (List Entry)
  | [] => .ok []
  | e :: rest =>
    match f.accepts e with
    | .error error => .error error
    | .ok accepted => (f.run rest).map fun kept => if accepted then e :: kept else kept

end PatternFilter

/-- The operator that keeps the entries whose key and value match patterns. -/
def patternFilter (options : Options) : Except OperatorError Operator :=
  (PatternFilter.ofOptions options).map PatternFilter.run

end Strata
