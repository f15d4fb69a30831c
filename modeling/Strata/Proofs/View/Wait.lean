/-
**Waiting for a key.**

While one waits others may change the store, so what is found hangs on when one looks.  A pause
takes the increment, but the last one ends when the time is over, and no look comes later.  The
answer is that of one look, and if it is that the key is missing then this look came when the time
was over, unless there are no pauses at all.  So a key that has come by then is not missed, and
where nobody changes the store the answer is that of a read.

* `View.waitFrom_last` — the look that decides, from some time on;
* `View.waitFor_last` — **the look that decides**;
* `View.waitFor_ne_none`, `View.waitFor_unchanged` — keys that come in time, and stores that nobody
  changes.
-/

import Strata.View.Read

set_option relaxedAutoImplicit false
set_option autoImplicit false

namespace Strata.View

variable (v : View) (store : Store) (key : Value)

/-- The answer is that of a look, which comes when the time is over if it finds nothing. -/
theorem waitFrom_last (stores : Nat → Store) (max increment waited : Nat) :
    ∃ last, waited ≤ last ∧ (last = waited ∨ last ≤ max) ∧
      v.waitFrom stores key max increment waited = v.get (stores last) key ∧
      (v.get (stores last) key = .ok none → max ≤ last ∨ increment = 0) := by
  fun_induction waitFrom v stores key max increment waited with
  | case1 waited e hget =>
      exact ⟨waited, Nat.le_refl _, Or.inl rfl, hget.symm, fun h => by cases hget.symm.trans h⟩
  | case2 waited value hget =>
      exact ⟨waited, Nat.le_refl _, Or.inl rfl, hget.symm, fun h => by cases hget.symm.trans h⟩
  | case3 waited hget hover =>
      exact ⟨waited, Nat.le_refl _, Or.inl rfl, hget.symm, fun _ => hover⟩
  | case4 waited hget hleft ih =>
      -- the pause takes some time, but no more than is left
      obtain ⟨last, hlater, hbound, hlast, hnone⟩ := ih
      exact ⟨last, by omega, by omega, hlast, hnone⟩

/-- **The look that decides.**  The answer is that of a look at the store while one waits, and where
the key is missing then when the time is over, unless there are no pauses. -/
theorem waitFor_last (max : Nat) (increment : Option Nat) (others : Nat → Store → Store) :
    ∃ last ≤ max, v.waitFor store key max increment others = v.get (others last store) key ∧
      (v.waitFor store key max increment others = .ok none →
        last = max ∨ increment.getD v.schema.settings.pause = 0) := by
  obtain ⟨last, -, hbound, hlast, hnone⟩ := v.waitFrom_last key
    (fun waited => others waited store) max (increment.getD v.schema.settings.pause) 0
  refine ⟨last, by omega, hlast, fun hmissing => ?_⟩
  have hover := hnone (hlast.symm.trans hmissing)
  omega

variable {v store key}

/-- A key that is there when the time is over is not missed. -/
theorem waitFor_ne_none {max : Nat} {increment : Option Nat} {others : Nat → Store → Store}
    (hpause : increment.getD v.schema.settings.pause ≠ 0)
    (hthere : v.get (others max store) key ≠ .ok none) :
    v.waitFor store key max increment others ≠ .ok none := by
  intro hmissing
  obtain ⟨last, -, hlast, hover⟩ := v.waitFor_last store key max increment others
  obtain rfl := (hover hmissing).resolve_right hpause
  exact hthere (hlast.symm.trans hmissing)

/-- Where nobody changes the store a wait is a read. -/
theorem waitFor_unchanged (max : Nat) (increment : Option Nat) :
    v.waitFor store key max increment = v.get store key := by
  obtain ⟨last, -, hlast, -⟩ := v.waitFor_last store key max increment fun _ store => store
  exact hlast

end Strata.View
