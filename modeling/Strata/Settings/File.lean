/-
**Settings in a file.**

The file is a document of named values.  Names that are not there have their standard values, other
names are passed over.  A file is written as one line for every setting that has a value.  Why a
file is not read or not written is told by the disk, and why a document is none or cannot be made by
whoever reads or makes it; these reasons are repeated as they are.

* `Settings.ofFile`, `Settings.readFile` — the settings that a file describes;
* `Settings.toFile` — the text of the file that describes settings;
* `Disk`, `Settings.writeFile` — writing it over what is there, which may fail;
* `Settings.standardText`, `Settings.writeStandard` — the file for a map that has none.
-/

import Strata.Settings
import Strata.Toml.Quoted
import Strata.Toml.Reader

set_option relaxedAutoImplicit false
set_option autoImplicit false

namespace Strata

namespace Settings

/-! ### Names -/

def keyCodecName : String := "key_codec"

def valueCodecName : String := "value_codec"

def maxValuesPerKeyName : String := "max_values_per_key"

def waitIncrementName : String := "wait_increment_ms"

/-! ### Reading -/

/-- The text of a name, or a standard text if the name is not there. -/
def textOf? (entries : Toml.Entries) (name standard : String) : Option String :=
  match Toml.lookup? name entries with
  | none => some standard
  | some (.scalar (.text s)) => some s
  | some _ => none

/-- The whole number of a name, if it is there. -/
def numberOf? (entries : Toml.Entries) (name : String) : Option (Option Nat) :=
  match Toml.lookup? name entries with
  | none => some none
  | some (.scalar (.integer n)) => if 0 ≤ n then some (some n.toNat) else none
  | some _ => none

/-- The settings that a document describes. -/
def ofEntries? (entries : Toml.Entries) : Option Settings := do
  let keyCodec ← textOf? entries keyCodecName standard.keyCodec
  let valueCodec ← textOf? entries valueCodecName standard.valueCodec
  let maxValuesPerKey ← numberOf? entries maxValuesPerKeyName
  let waitIncrement ← numberOf? entries waitIncrementName
  return ⟨keyCodec, valueCodec, maxValuesPerKey, waitIncrement.getD standard.waitIncrement⟩

/-- Why a file gives no settings. -/
inductive FileFault where
  /-- There is no file, or it holds no text. -/
  | unreadable
  /-- The text is no document, or a name has a value of a wrong kind. -/
  | malformed
  /-- The settings are not valid. -/
  | invalid (error : MapError)
  deriving DecidableEq, Repr

/-- The settings that a file describes, given what it holds if there is one. -/
def ofFile (content : Option Bytes) : Except FileFault Settings :=
  match content.bind Bytes.text? with
  | none => .error .unreadable
  | some text =>
    match (Toml.readDocument? text).bind ofEntries? with
    | none => .error .malformed
    | some s =>
      match s.validate with
      | .error e => .error (.invalid e)
      | .ok () => .ok s

/-- The fault as an error, with the path of the file and the reason. -/
def FileFault.asError (path reason : String) : FileFault → MapError
  | .unreadable => .io s!"Failed to read config file '{path}': {reason}"
  | .malformed => .configuration s!"Failed to parse config file '{path}': {reason}"
  | .invalid e => e

/-- Reads settings from the file at a path, given what it holds if there is one, and the reason why
it is not read if it is not. -/
def readFile (path reason : String) (content : Option Bytes) : Except MapError Settings :=
  (ofFile content).mapError (FileFault.asError path reason)

/-! ### Writing -/

/-- The line that gives a name a text. -/
def textLine (name value : String) : String := name ++ " = " ++ Toml.writeText value ++ "\n"

/-- The line that gives a name a number. -/
def numberLine (name : String) (n : Nat) : String := name ++ " = " ++ Nat.repr n ++ "\n"

/-- A number can be written: it is no larger than the document allows. -/
def fits (n : Nat) : Bool := decide ((n : Int) ≤ Number.greatestInt64)

/-- The text of the file that describes settings, unless a number is too large for it; then the
reason is that of the document. -/
def toFile (s : Settings) (reason : String := "") : Except MapError String :=
  if s.maxValuesPerKey.all fits && fits s.waitIncrement then
    .ok (textLine keyCodecName s.keyCodec ++ textLine valueCodecName s.valueCodec ++
      (s.maxValuesPerKey.elim "" (numberLine maxValuesPerKeyName)) ++
      numberLine waitIncrementName s.waitIncrement)
  else .error (.configuration s!"Failed to serialize config: {reason}")

end Settings

/-- What becomes of a file over which bytes are written. -/
structure Disk where
  /-- The file afterwards, and the reason why not all of it was written, if there is one; given
  what the file held before, if there was one. -/
  write : Option Bytes → Bytes → Option Bytes × Option String
  /-- Without such a reason the file holds the bytes and nothing else. -/
  whole : ∀ before bytes, (write before bytes).2 = none → (write before bytes).1 = some bytes

namespace Disk

/-- A disk that fails in nothing. -/
def faultless : Disk := ⟨fun _ bytes => (some bytes, none), fun _ _ _ => rfl⟩

/-- Writes a text to the file at a path: the answer, and the file afterwards. -/
def writeText (disk : Disk) (kind path text : String) (before : Option Bytes) :
    Except MapError Unit × Option Bytes :=
  let (after, fault) := disk.write before (Bytes.ofText text)
  match fault with
  | some cause => (.error (.io s!"Failed to write {kind} '{path}': {cause}"), after)
  | none => (.ok (), after)

end Disk

namespace Settings

/-- Writes settings to the file at a path: the answer, and the file afterwards. -/
def writeFile (disk : Disk) (path reason : String) (s : Settings) (before : Option Bytes) :
    Except MapError Unit × Option Bytes :=
  match s.toFile reason with
  | .error e => (.error e, before)
  | .ok text => disk.writeText "config file" path text before

/-! ### The standard file -/

/-- The file for a map that has none, with the standard settings and what they mean. -/
def standardText : String :=
  "# Keyspan map configuration\n" ++
  "#\n" ++
  "# Codecs: \"fixed_point\" (default, order preserving), \"long\", \"opaque\"\n" ++
  "key_codec = \"fixed_point\"\n" ++
  "value_codec = \"fixed_point\"\n" ++
  "\n" ++
  "# Values retained per key. Leave unset for a single-valued map.\n" ++
  "# 0 retains every value.\n" ++
  "# max_values_per_key = 5\n" ++
  "\n" ++
  "# Poll interval for wait_for, in milliseconds (default: 1000)\n" ++
  "wait_increment_ms = 1000\n"

/-- Writes the standard file to a path unless there is a file. -/
def writeStandard (disk : Disk) (path : String) (before : Option Bytes) :
    Except MapError Unit × Option Bytes :=
  match before with
  | some _ => (.ok (), before)
  | none => disk.writeText "default config file" path standardText none

/-- The text of the file after that, if nothing failed. -/
def keepFile (existing : Option String) : String := existing.getD standardText

end Settings

end Strata
