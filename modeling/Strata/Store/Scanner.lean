/-
**Scanners.**

A scanner says what a scan is to read: the range of keys, the versions of each key, and the
operators that run on every partition.  Operators stand in the order of their priorities, in which
they run, and no two have the same priority.
-/

import Strata.KeyRange
import Strata.Store.Error

set_option relaxedAutoImplicit false
set_option autoImplicit false

namespace Strata

/-- What a scan is to read. -/
structure Scanner where
  range : KeyRange
  mode : ScanMode
  /-- The operators, in ascending order of their priorities. -/
  settings : List Setting
  deriving DecidableEq, Repr

namespace Scanner

/-- The scanner of a range, without operators. -/
def ofRange (range : KeyRange) (mode : ScanMode) : Scanner := ⟨range, mode, []⟩

/-- The scanner of another range. -/
def setRange (s : Scanner) (range : KeyRange) : Scanner := { s with range := range }

/-- Puts an operator where its priority belongs. -/
def insertSetting (new : Setting) : List Setting → Except StoreError (List Setting)
  | [] => .ok [new]
  | s :: rest =>
    if new.priority < s.priority then .ok (new :: s :: rest)
    else if s.priority = new.priority then .error (.duplicatePriority new.priority s.id new.id)
    else (insertSetting new rest).map (s :: ·)

/-- Installs an operator, unless its priority is held by another. -/
def install (s : Scanner) (new : Setting) : Except StoreError Scanner :=
  (insertSetting new s.settings).map fun settings => { s with settings := settings }

end Scanner

end Strata
