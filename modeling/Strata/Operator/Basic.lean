/-
**Operators.**

An operator turns the entries of one partition into the entries that a scan returns for it.  It
travels to the store as a setting: a registered name, a priority and a flat list of options, all
texts.  Before that the client checks, from the operator's descriptor alone, that the values below
it are of a type it accepts.

* `ValueType`, `OperatorRole`, `Descriptor` — what is known of an operator without building it;
* `Options` — its options, with `Options.get?`, `Options.set` and `Options.setDefault`;
* `OperatorError` — why it cannot be built or cannot go on;
* `Operator` — what it does.
-/

import Strata.Codec
import Strata.Entry
import Strata.Number.Reader
import Strata.Text.Blank

set_option relaxedAutoImplicit false
set_option autoImplicit false

namespace Strata

/-! ### Descriptors -/

/-- How the values of a stream of entries are to be read. -/
inductive ValueType where
  /-- By the codec of the stream. -/
  | typed
  /-- As integers of eight bytes. -/
  | long
  /-- As summaries of numbers. -/
  | summary
  deriving DecidableEq, Repr

/-- The name of a value type. -/
def ValueType.name : ValueType → String
  | typed => "typed"
  | long => "long"
  | summary => "summary"

/-- The name of a value type in messages. -/
def ValueType.title : ValueType → String
  | typed => "Typed"
  | long => "Long"
  | summary => "Summary"

/-- What an operator does to a stream. -/
inductive OperatorRole where
  /-- Keeps some of the entries. -/
  | filter
  /-- Changes the value of every entry. -/
  | transform
  /-- Makes one entry of all versions of a key. -/
  | rowTransform
  /-- Makes one entry of a whole partition. -/
  | aggregate
  deriving DecidableEq, Repr

/-- The name of a kind of operator. -/
def OperatorRole.name : OperatorRole → String
  | filter => "Filter"
  | transform => "Transform"
  | rowTransform => "RowTransform"
  | aggregate => "Aggregate"

/-! ### Errors -/

/-- Why an operator cannot be built, or cannot process what it is given. -/
inductive OperatorError where
  | missingOption (operator option : String)
  | invalidOption (option value reason : String)
  | codec (error : CodecError)
  | unknownOperator (id : String)
  | incompatibleInput (operator : String) (input : ValueType)
  deriving DecidableEq, Repr

def OperatorError.message : OperatorError → String
  | missingOption operator option => s!"Operator {operator} is missing option '{option}'"
  | invalidOption option value reason => s!"Invalid option '{option}' = '{value}': {reason}"
  | codec error => s!"Codec error: {error.message}"
  | unknownOperator id => s!"Unknown operator: {id}"
  | incompatibleInput operator input => s!"Operator {operator} cannot consume {input.title} values"

/-- A codec error as an error of the operator that met it. -/
def OperatorError.ofCodec {α : Type} : Except CodecError α → Except OperatorError α
  | .ok a => .ok a
  | .error e => .error (.codec e)

/-- What is known of an operator without building it. -/
structure Descriptor where
  id : String
  kind : OperatorRole
  /-- The types of value it takes; none stands for all. -/
  accepts : List ValueType
  /-- The type of value it makes; none stands for the type it takes. -/
  output : Option ValueType
  deriving DecidableEq, Repr

namespace Descriptor

/-- Checks that the operator takes values of a type. -/
def checkInput (d : Descriptor) (input : ValueType) : Except OperatorError Unit :=
  if d.accepts.isEmpty || d.accepts.contains input then .ok ()
  else .error (.incompatibleInput d.id input)

/-- The type of the values that the operator makes of values of a type. -/
def outputType (d : Descriptor) (input : ValueType) : ValueType := d.output.getD input

def isAggregate (d : Descriptor) : Bool := d.kind == .aggregate

end Descriptor

/-! ### Options -/

/-- The options of an operator, by name. -/
abbrev Options := List (String × String)

namespace Options

/-- The value of an option. -/
def get? (options : Options) (name : String) : Option String := options.lookup name

/-- Gives an option a value, in place of the one it has. -/
def set (name value : String) : Options → Options
  | [] => [(name, value)]
  | option :: options =>
    if option.1 = name then (name, value) :: options else option :: set name value options

/-- Gives an option a value unless it has one. -/
def setDefault (name value : String) (options : Options) : Options :=
  if (options.get? name).isSome then options else options.set name value

end Options

/-- An operator by name, with the priority that places it among others and its options. -/
structure Setting where
  id : String
  priority : Nat
  options : Options
  deriving DecidableEq, Repr

namespace Options

/-! ### Reading options -/

def keyCodec : String := "key_codec"

def valueInputCodec : String := "value_input_codec"

def valueOutputCodec : String := "value_output_codec"

/-- The value of an option that must be there. -/
def required (options : Options) (operator name : String) : Except OperatorError String :=
  match options.get? name with
  | some value => .ok value
  | none => .error (.missingOption operator name)

/-- Reads an option, without the white space around it, if it is there. -/
def readWith {α : Type} (read : List Char → Except String α) (options : Options) (name : String) :
    Except OperatorError (Option α) :=
  match options.get? name with
  | none => .ok none
  | some value =>
    match read (Text.trim value.toList) with
    | .ok a => .ok (some a)
    | .error reason => .error (.invalidOption name value reason)

/-- Reads an option that is a double. -/
def readFloat : Options → String → Except OperatorError (Option Float) :=
  readWith fun text => (Number.readFloat text).mapError Number.FloatFault.message

/-- Reads an option that is a whole number of 64 bits. -/
def readWord : Options → String → Except OperatorError (Option Nat) :=
  readWith fun text =>
    (Number.readNatural Number.greatestWord text).mapError Number.IntegerFault.message

/-- The codec that an option names, or the one used when none is named. -/
def codec (options : Options) (name : String) : Except OperatorError Codec :=
  OperatorError.ofCodec (Codec.named ((options.get? name).getD Codec.defaultId))

end Options

/-! ### Operators -/

/-- What an operator does to the entries of one partition. -/
abbrev Operator := List Entry → Except OperatorError (List Entry)

/-- The consecutive entries of one key, together. -/
def rows : List Entry → List (List Entry)
  | [] => []
  | entry :: rest =>
    match rows rest with
    | (next :: row) :: others =>
      if next.key = entry.key then (entry :: next :: row) :: others
      else [entry] :: (next :: row) :: others
    | others => [entry] :: others

@[simp] theorem rows_nil : rows [] = [] := rfl

end Strata
