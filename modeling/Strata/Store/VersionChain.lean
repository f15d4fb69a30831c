/-
**The versions of a key.**

The versions that are kept of a key, the newest first.  There is always at least one: a retention of
zero keeps one too.
-/

import Strata.Entry

set_option relaxedAutoImplicit false
set_option autoImplicit false

namespace Strata

/-- One value of a key and the timestamp of its write. -/
structure Version where
  value : Bytes
  timestamp : Nat
  deriving DecidableEq, Repr

/-- The versions of a key, of which there is a newest one. -/
structure VersionChain where
  newest : Version
  older : List Version
  deriving DecidableEq, Repr

namespace VersionChain

/-- The chain of one version. -/
def single (v : Version) : VersionChain := ⟨v, []⟩

/-- The versions, the newest first. -/
def toList (chain : VersionChain) : List Version := chain.newest :: chain.older

/-- How many versions there are. -/
def count (chain : VersionChain) : Nat := chain.toList.length

/-- Cuts the chain to the newest `retention` versions, or to one if that is zero; `none` keeps
all. -/
def retain (chain : VersionChain) : Option Nat → VersionChain
  | none => chain
  | some retention => { chain with older := chain.older.take (retention - 1) }

/-- Puts a version in front of the others and cuts the chain. -/
def push (chain : VersionChain) (v : Version) (retention : Option Nat) : VersionChain :=
  retain ⟨v, chain.toList⟩ retention

@[simp] theorem toList_single (v : Version) : (single v).toList = [v] := rfl

theorem toList_retain (chain : VersionChain) (retention : Nat) :
    (chain.retain (some retention)).toList = chain.toList.take (max 1 retention) := by
  cases retention <;> simp [retain, toList]

/-- The entries of the versions that a scan of a mode returns. -/
def entries (chain : VersionChain) (key : Bytes) : ScanMode → List Entry
  | .latest => [⟨key, chain.newest.value, chain.newest.timestamp⟩]
  | .allVersions => chain.toList.map fun v => ⟨key, v.value, v.timestamp⟩

end VersionChain

end Strata
