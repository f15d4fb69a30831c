/-
**Installing operators in any order.**

A scanner looks for a priority by halving the stretch of its operators in which it can stand.  As
the operators stand in the order of their priorities, the search finds the one that holds the
priority, or else the only place at which an operator with that priority can be put.  So installing
fails exactly where the priority is held, names the operator that holds it and leaves the scanner as
it was; otherwise the operators are in order again.

Operators with different priorities do not get in each other's way: each of them is answered as if
it were installed first, and those that are accepted are what a scanner has in the end.  The order
of its operators is that of their priorities, so it does not matter in which order they came.

* `Scanner.narrow`, `Scanner.search`, `Scanner.Place.IsOf` — the search, and what it looks for;
* `Scanner.isOf_search` — **the search finds its place**;
* `Scanner.installAt`, `Scanner.run` — calls of a scanner, one after the other;
* `Scanner.installAt_eq` — a call answers what installing answers;
* `Scanner.run_install` — **what is installed in the end**;
* `Scanner.install_in_any_order` — order and answers after any calls.
-/

import Mathlib.Data.List.InsertIdx
import Mathlib.Data.List.Sort
import Strata.Proofs.Store.ScanStop

set_option relaxedAutoImplicit false
set_option autoImplicit false

namespace Strata.Scanner

variable {settings : List Setting} {s t : Scanner} {new : Setting}

/-! ### The search -/

/-- Halves a stretch of the operators, given by its first place and its length, until one is left.
It is the upper half in which the search goes on, unless that begins above the priority. -/
def narrow (settings : List Setting) (priority base size : Nat) (hsize : 0 < size)
    (hfits : base + size ≤ settings.length) : Fin settings.length :=
  if hone : size = 1 then ⟨base, by omega⟩
  else
    have hmid : base + size / 2 < settings.length := by omega
    if priority < settings[base + size / 2].priority then
      narrow settings priority base (size - size / 2) (by omega) (by omega)
    else narrow settings priority (base + size / 2) (size - size / 2) (by omega) (by omega)
termination_by size

/-- What a search finds. -/
inductive Place (settings : List Setting) where
  /-- The place of the operator that holds the priority. -/
  | held (place : Fin settings.length)
  /-- The place at which an operator with the priority can be put. -/
  | free (place : Fin (settings.length + 1))

/-- What is found for a priority at the place where halving ended. -/
def placeAt (settings : List Setting) (priority : Nat) (last : Fin settings.length) :
    Place settings :=
  if settings[last].priority = priority then .held last
  else if settings[last].priority < priority then .free last.succ
  else .free last.castSucc

/-- Searches for a priority. -/
def search (settings : List Setting) (priority : Nat) : Place settings :=
  if h : 0 < settings.length then
    placeAt settings priority (narrow settings priority 0 settings.length h (Nat.zero_add _).le)
  else .free 0

/-- The place is the one of a priority: it is where the priority is held, or the priorities before
it are below and those from it on are above. -/
def Place.IsOf (priority : Nat) : Place settings → Prop
  | .held place => settings[place].priority = priority
  | .free place =>
    (∀ i (h : i < settings.length), i < place → settings[i].priority < priority) ∧
      ∀ i (h : i < settings.length), place ≤ i → priority < settings[i].priority

/-- The operator is the last one whose priority is not above another, or it is the first of all if
there is no such operator. -/
structure IsLast (settings : List Setting) (priority : Nat) (last : Fin settings.length) :
    Prop where
  below : last.val = 0 ∨ settings[last].priority ≤ priority
  above : ∀ i (h : i < settings.length), last < i → priority < settings[i].priority

theorem Prioritized.lt (h : Prioritized settings) {i j : Nat} (hij : i < j)
    (hj : j < settings.length) : settings[i].priority < settings[j].priority :=
  List.pairwise_iff_getElem.1 h i j (hij.trans hj) hj hij

/-- Halving ends at the last operator that is not above the priority, if that stood in the
stretch. -/
theorem isLast_narrow (h : Prioritized settings) {priority base size : Nat} (hsize : 0 < size)
    (hfits : base + size ≤ settings.length)
    (hbelow : base = 0 ∨ settings[base].priority ≤ priority)
    (habove : ∀ i (hi : i < settings.length), base + size ≤ i → priority < settings[i].priority) :
    IsLast settings priority (narrow settings priority base size hsize hfits) := by
  fun_induction narrow settings priority base size hsize hfits with
  | case1 base hsize hfits => exact ⟨hbelow, fun i hi hlt => habove i hi hlt⟩
  | case2 base size hsize hfits hone hmid hlt ih =>
      refine ih hbelow fun i hi hle => ?_
      -- what stands behind the middle is above it
      rcases Nat.eq_or_lt_of_le (show base + size / 2 ≤ i by omega) with rfl | hbehind
      · exact hlt
      · exact hlt.trans (h.lt hbehind hi)
  | case3 base size hsize hfits hone hmid hge ih =>
      exact ih (Or.inr (not_lt.1 hge)) fun i hi hle => habove i hi (by omega)

theorem IsLast.isOf (h : Prioritized settings) {priority : Nat} {last : Fin settings.length}
    (hlast : IsLast settings priority last) : (placeAt settings priority last).IsOf priority := by
  unfold placeAt
  split
  · next heq => exact heq
  · next hne =>
    split
    · next hlt =>
      refine ⟨fun i hi hle => ?_, fun i hi hle => hlast.above i hi hle⟩
      rcases Nat.eq_or_lt_of_le (Nat.le_of_lt_succ hle) with rfl | hbefore
      · exact hlt
      · exact (h.lt hbefore last.isLt).trans hlt
    · next hge =>
      -- all operators are above the priority, for the last one that is not would be this one
      have hfirst : last.val = 0 := hlast.below.resolve_right (by omega)
      refine ⟨fun i hi hlt => absurd hlt (by simp [hfirst]), fun i hi _ => ?_⟩
      rcases Nat.eq_zero_or_pos i with rfl | hpos
      · have hgt : priority < settings[last].priority := by omega
        simpa [hfirst] using hgt
      · exact hlast.above i hi (by omega)

/-- **The search finds its place.** -/
theorem isOf_search (h : Prioritized settings) (priority : Nat) :
    (search settings priority).IsOf priority := by
  unfold search
  split
  · next hlength =>
    exact (isLast_narrow h hlength _ (Or.inl rfl) fun i hi hle => by omega).isOf h
  · next hlength => exact ⟨fun i hi => by omega, fun i hi => by omega⟩

/-! ### Putting an operator in its place -/

/-- An operator is put before those with a higher priority. -/
theorem insertSetting_of_free {place : Nat}
    (hbelow : ∀ i (h : i < settings.length), i < place → settings[i].priority < new.priority)
    (habove : ∀ i (h : i < settings.length), place ≤ i → new.priority < settings[i].priority)
    (hplace : place ≤ settings.length) :
    insertSetting new settings = .ok (settings.insertIdx place new) := by
  induction settings generalizing place with
  | nil =>
      obtain rfl : place = 0 := by simpa using hplace
      rfl
  | cons first rest ih =>
      cases place with
      | zero =>
          have hfirst : new.priority < first.priority := habove 0 (by simp) le_rfl
          rw [insertSetting, if_pos hfirst, List.insertIdx_zero]
      | succ place =>
          have hfirst : first.priority < new.priority := hbelow 0 (by simp) (by omega)
          have hrest : insertSetting new rest = .ok (rest.insertIdx place new) :=
            ih (fun i hi hlt => hbelow (i + 1) (by simpa using hi) (by omega))
              (fun i hi hle => habove (i + 1) (by simpa using hi) (by omega))
              (by simpa using hplace)
          rw [insertSetting, if_neg (by omega), if_neg (by omega), hrest, List.insertIdx_succ_cons]
          rfl

/-- An operator is refused if its priority is held. -/
theorem insertSetting_of_held (h : Prioritized settings) {holder : Setting}
    (hholder : holder ∈ settings) (hpriority : holder.priority = new.priority) :
    insertSetting new settings =
      .error (.duplicatePriority new.priority holder.id new.id) := by
  induction settings with
  | nil => cases hholder
  | cons first rest ih =>
      obtain ⟨hfirst, hrest⟩ := List.pairwise_cons.1 h
      rcases List.mem_cons.1 hholder with rfl | hholder
      · rw [insertSetting, if_neg (by omega), if_pos hpriority]
      · have hlt := hfirst holder hholder
        rw [insertSetting, if_neg (by omega), if_neg (by omega), ih hrest hholder]
        rfl

/-! ### Calls of a scanner -/

/-- Searches for the priority of an operator, and puts the operator where there is a place for it.
What is answered, and the scanner as it is then. -/
def installAt (s : Scanner) (new : Setting) : Except StoreError Unit × Scanner :=
  match search s.settings new.priority with
  | .held place => (.error (.duplicatePriority new.priority s.settings[place].id new.id), s)
  | .free place => (.ok (), { s with settings := s.settings.insertIdx place new })

/-- What changes a scanner. -/
inductive Request where
  | setRange (range : KeyRange)
  | install (new : Setting)

/-- What a call answers, and the scanner that it leaves. -/
def call (s : Scanner) : Request → Except StoreError Unit × Scanner
  | .setRange range => (.ok (), s.setRange range)
  | .install new => s.installAt new

/-- The answers to calls, one after the other, and the scanner that they leave. -/
def run (s : Scanner) : List Request → List (Except StoreError Unit) × Scanner
  | [] => ([], s)
  | request :: rest =>
    ((s.call request).1 :: ((s.call request).2.run rest).1, ((s.call request).2.run rest).2)

/-- **A call answers what installing answers**, and a scanner that refuses an operator stays as it
was. -/
theorem installAt_eq (h : Prioritized s.settings) (new : Setting) :
    s.installAt new = ((s.install new).map fun _ => (), (s.install new).toOption.getD s) := by
  have hplace := isOf_search h new.priority
  rw [installAt, install]
  cases hsearch : search s.settings new.priority with
  | held place =>
      rw [hsearch] at hplace
      rw [insertSetting_of_held h (List.getElem_mem place.isLt) hplace]
      rfl
  | free place =>
      rw [hsearch] at hplace
      rw [insertSetting_of_free hplace.1 hplace.2 (Nat.le_of_lt_succ place.isLt)]
      rfl

/-- What is installed is put among the operators that are there. -/
theorem perm_of_install (h : Prioritized s.settings) (hinstall : s.install new = .ok t) :
    t.settings.Perm (new :: s.settings) := by
  have hplace := isOf_search h new.priority
  obtain ⟨made, hmade, rfl⟩ := map_eq_ok.1 hinstall
  cases hsearch : search s.settings new.priority with
  | held place =>
      rw [hsearch] at hplace
      rw [insertSetting_of_held h (List.getElem_mem place.isLt) hplace] at hmade
      cases hmade
  | free place =>
      rw [hsearch] at hplace
      have hle : place.val ≤ s.settings.length := Nat.le_of_lt_succ place.isLt
      rw [insertSetting_of_free hplace.1 hplace.2 hle] at hmade
      obtain rfl := Except.ok.inj hmade
      exact List.perm_insertIdx new s.settings hle

/-- A priority that is held is refused, its holder is named, and the scanner stays as it was. -/
theorem installAt_of_held (h : Prioritized s.settings) {holder : Setting}
    (hholder : holder ∈ s.settings) (hpriority : holder.priority = new.priority) :
    s.installAt new = (.error (.duplicatePriority new.priority holder.id new.id), s) := by
  rw [installAt_eq h, install, insertSetting_of_held h hholder hpriority]
  rfl

/-- An operator is accepted if its priority is not held. -/
theorem installAt_of_free (h : Prioritized s.settings)
    (hfree : ∀ holder ∈ s.settings, holder.priority ≠ new.priority) :
    ∃ t, s.install new = .ok t ∧ s.installAt new = (.ok (), t) := by
  have hplace := isOf_search h new.priority
  cases hsearch : search s.settings new.priority with
  | held place =>
      rw [hsearch] at hplace
      exact absurd hplace (hfree _ (List.getElem_mem place.isLt))
  | free place =>
      rw [hsearch] at hplace
      have hinstall : s.install new =
          .ok { s with settings := s.settings.insertIdx place new } := by
        rw [install, insertSetting_of_free hplace.1 hplace.2 (Nat.le_of_lt_succ place.isLt)]
        rfl
      exact ⟨_, hinstall, by rw [installAt_eq h, hinstall]; rfl⟩

theorem kept_of_install (h : s.install new = .ok t) : t.range = s.range ∧ t.mode = s.mode := by
  obtain ⟨made, -, rfl⟩ := map_eq_ok.1 h
  exact ⟨rfl, rfl⟩

/-- Calls lead from one scanner to another. -/
theorem Built.call (h : s.Built) (request : Request) : (s.call request).2.Built := by
  cases request with
  | setRange range => exact h.setRange range
  | install new =>
      by_cases hfree : ∀ holder ∈ s.settings, holder.priority ≠ new.priority
      · obtain ⟨t, hinstall, hcall⟩ := installAt_of_free h.ascending hfree
        rw [Scanner.call, hcall]
        exact h.install hinstall
      · push Not at hfree
        obtain ⟨holder, hholder, hpriority⟩ := hfree
        rw [Scanner.call, installAt_of_held h.ascending hholder hpriority]
        exact h

theorem Built.run (h : s.Built) (requests : List Request) : (s.run requests).2.Built := by
  induction requests generalizing s with
  | nil => exact h
  | cons request rest ih => exact ih (h.call request)

/-! ### Operators with different priorities -/

/-- An operator is answered the same before and after another priority was taken. -/
theorem answer_of_install (h : s.Built) (hinstall : s.install new = .ok t) {other : Setting}
    (hne : other.priority ≠ new.priority) : (t.installAt other).1 = (s.installAt other).1 := by
  have hperm := perm_of_install h.ascending hinstall
  have ht : Prioritized t.settings := (h.install hinstall).ascending
  by_cases hfree : ∀ holder ∈ s.settings, holder.priority ≠ other.priority
  · have hfree' : ∀ holder ∈ t.settings, holder.priority ≠ other.priority := by
      intro holder hholder
      rcases List.mem_cons.1 (hperm.mem_iff.1 hholder) with rfl | hholder
      · exact hne.symm
      · exact hfree holder hholder
    obtain ⟨_, -, hs⟩ := installAt_of_free h.ascending hfree
    obtain ⟨_, -, ht⟩ := installAt_of_free ht hfree'
    rw [hs, ht]
  · push Not at hfree
    obtain ⟨holder, hholder, hpriority⟩ := hfree
    rw [installAt_of_held h.ascending hholder hpriority,
      installAt_of_held ht (hperm.mem_iff.2 (List.mem_cons_of_mem new hholder)) hpriority]

/-- **What is installed in the end.**  Of operators with different priorities each is answered as
if it were the first, and a scanner keeps what it had and takes those whose priority was free. -/
theorem run_install (h : s.Built) {settings : List Setting}
    (hpriorities : (settings.map (·.priority)).Nodup) :
    (s.run (settings.map .install)).1 = settings.map (fun new => (s.installAt new).1) ∧
      ((s.run (settings.map .install)).2.range = s.range ∧
        (s.run (settings.map .install)).2.mode = s.mode) ∧
      ∀ m, m ∈ (s.run (settings.map .install)).2.settings ↔
        m ∈ s.settings ∨ m ∈ settings ∧ ∀ holder ∈ s.settings, holder.priority ≠ m.priority := by
  induction settings generalizing s with
  | nil => exact ⟨rfl, ⟨rfl, rfl⟩, fun m => by simp [run]⟩
  | cons new rest ih =>
      obtain ⟨hnew, hrest⟩ := List.nodup_cons.1 hpriorities
      have hother : ∀ m ∈ rest, m.priority ≠ new.priority := fun m hm heq =>
        hnew (List.mem_map.2 ⟨m, hm, heq⟩)
      rw [List.map_cons, List.map_cons, run, call]
      dsimp only
      by_cases hfree : ∀ holder ∈ s.settings, holder.priority ≠ new.priority
      · obtain ⟨t, hinstall, hcall⟩ := installAt_of_free h.ascending hfree
        obtain ⟨hanswers, hkept, hmem⟩ := ih (h.install hinstall) hrest
        have hperm := perm_of_install h.ascending hinstall
        rw [hcall, hanswers]
        refine ⟨?_, ?_, fun m => ?_⟩
        · exact congrArg _ (List.map_congr_left fun m hm =>
            answer_of_install h hinstall (hother m hm))
        · rwa [(kept_of_install hinstall).1, (kept_of_install hinstall).2] at hkept
        · rw [hmem, hperm.mem_iff]
          -- the others do not ask for the priority that was taken
          grind
      · push Not at hfree
        obtain ⟨holder, hholder, hpriority⟩ := hfree
        obtain ⟨hanswers, hkept, hmem⟩ := ih h hrest
        rw [installAt_of_held h.ascending hholder hpriority, hanswers]
        refine ⟨rfl, hkept, fun m => ?_⟩
        rw [hmem]
        grind

/-- Scanners are told apart by their ranges, their modes and which operators they have. -/
theorem Built.eq_of_mem_iff (hs : s.Built) (ht : t.Built) (hrange : s.range = t.range)
    (hmode : s.mode = t.mode) (hmem : ∀ m, m ∈ s.settings ↔ m ∈ t.settings) : s = t := by
  let before (m n : Setting) : Prop := m.priority < n.priority
  have : Std.Irrefl before := ⟨fun m => lt_irrefl m.priority⟩
  have : Std.Antisymm before := ⟨fun m n hmn hnm => absurd hnm (lt_asymm hmn)⟩
  have hsettings : s.settings = t.settings :=
    List.Pairwise.eq_of_mem_iff (r := before) hs.ascending ht.ascending hmem
  cases s
  cases t
  simp_all

/-! ### All calls -/

/-- **Order and answers after any calls.**  The operators of a scanner always stand in the order of
their priorities.  Searching answers what installing answers.  An operator is refused exactly if its
priority is held, its holder is named and the scanner stays as it was; else it is put among the
others.  And of operators with different priorities each is answered as if it were the first, and
they leave the same scanner in whichever order they are installed. -/
theorem install_in_any_order (range : KeyRange) (mode : ScanMode) (requests : List Request) :
    let s := ((ofRange range mode).run requests).2
    Prioritized s.settings ∧
    (∀ new, s.installAt new = ((s.install new).map fun _ => (), (s.install new).toOption.getD s)) ∧
    (∀ new, (∃ fault, (s.installAt new).1 = .error fault) ↔
      ∃ holder ∈ s.settings, holder.priority = new.priority) ∧
    (∀ new, ∀ holder ∈ s.settings, holder.priority = new.priority →
      s.installAt new = (.error (.duplicatePriority new.priority holder.id new.id), s)) ∧
    (∀ new t, s.installAt new = (.ok (), t) →
      t.settings.Perm (new :: s.settings) ∧ t.range = s.range ∧ t.mode = s.mode) ∧
    ∀ settings other : List Setting, settings.Perm other → (settings.map (·.priority)).Nodup →
      (s.run (settings.map .install)).1 = settings.map (fun new => (s.installAt new).1) ∧
      (s.run (other.map .install)).1 = other.map (fun new => (s.installAt new).1) ∧
      (s.run (settings.map .install)).2 = (s.run (other.map .install)).2 := by
  intro s
  have hs : s.Built := (Built.ofRange range mode).run requests
  refine ⟨hs.ascending, installAt_eq hs.ascending, fun new => ?_,
    fun new holder => installAt_of_held hs.ascending, fun new t hcall => ?_, ?_⟩
  · constructor
    · rintro ⟨fault, hfault⟩
      by_contra hfree
      push Not at hfree
      obtain ⟨t, -, hcall⟩ := installAt_of_free hs.ascending hfree
      rw [hcall] at hfault
      cases hfault
    · rintro ⟨holder, hholder, hpriority⟩
      exact ⟨_, by rw [installAt_of_held hs.ascending hholder hpriority]⟩
  · -- nothing but installing is answered so
    rw [installAt_eq hs.ascending] at hcall
    cases hinstall : s.install new with
    | error fault =>
        rw [hinstall] at hcall
        cases hcall
    | ok made =>
        rw [hinstall] at hcall
        obtain rfl : made = t := congrArg Prod.snd hcall
        exact ⟨perm_of_install hs.ascending hinstall, kept_of_install hinstall⟩
  · intro settings other hperm hpriorities
    obtain ⟨hanswers, hkept, hmem⟩ := run_install hs hpriorities
    obtain ⟨hanswers', hkept', hmem'⟩ :=
      run_install hs ((hperm.map (·.priority)).nodup_iff.1 hpriorities)
    refine ⟨hanswers, hanswers', (hs.run _).eq_of_mem_iff (hs.run _) ?_ ?_ fun m => ?_⟩
    · rw [hkept.1, hkept'.1]
    · rw [hkept.2, hkept'.2]
    · rw [hmem, hmem', hperm.mem_iff]

/-- Two operators are installed in either order, one of which finds its priority held. -/
theorem install_in_any_order_two :
    let requests : List Request := [.install ⟨"count", 102, []⟩, .install ⟨"stats", 100, []⟩]
    let s := ((ofRange KeyRange.full .latest).run requests).2
    let sampling : Setting := ⟨"sampling", 101, []⟩
    let checksum : Setting := ⟨"checksum", 100, []⟩
    [sampling, checksum].Perm [checksum, sampling] ∧
      ([sampling, checksum].map (·.priority)).Nodup ∧
      (s.run [.install sampling, .install checksum]).2 =
        (s.run [.install checksum, .install sampling]).2 := by
  intro requests s sampling checksum
  obtain ⟨-, -, -, -, -, hany⟩ := install_in_any_order KeyRange.full .latest requests
  have hperm : [sampling, checksum].Perm [checksum, sampling] := List.Perm.swap _ _ _
  have hpriorities : ([sampling, checksum].map (·.priority)).Nodup := by decide
  exact ⟨hperm, hpriorities, (hany _ _ hperm hpriorities).2.2⟩

end Strata.Scanner
