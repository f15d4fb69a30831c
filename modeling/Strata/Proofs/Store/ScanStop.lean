/-
**Where a scan stops.**

A scan gives what the operators make of one partition after the other.  It stops at the first
partition that lacks one of the operators, or on which one of them fails, with an error in the place
of all that this partition and the later ones hold; whoever pulls on gets nothing.  Nothing of a
partition that fails is given, and no partition is passed over, for what is visited are all
partitions that the range meets.

The operator that a partition is said to lack is the first in the order of the scanner, and that is
the order of priorities, in which operators are installed.

* `Scanner.Built`, `Scanner.Built.ascending` — scanners, and the order of their operators;
* `Stream.pull`, `Stream.pull_eq` — pulling a number of times, behind the end too;
* `Store.Gives`, `Store.Stops` — what a partition gives, and why a scan stops at it;
* `Store.Yields`, `Store.exists_yields` — **what a scan yields**;
* `Store.Yields.exists_error` — a lacking partition is never passed over.
-/

import Strata.Proofs.Store.LazyScan

set_option relaxedAutoImplicit false
set_option autoImplicit false

namespace Strata

/-! ### Scanners -/

namespace Scanner

/-- The scanners that there are: one is made of a range, and is given other ranges and further
operators. -/
inductive Built : Scanner → Prop
  | ofRange (range : KeyRange) (mode : ScanMode) : Built (Scanner.ofRange range mode)
  | setRange {s : Scanner} (h : Built s) (range : KeyRange) : Built (s.setRange range)
  | install {s t : Scanner} {new : Setting} (h : Built s) (hinstall : s.install new = .ok t) :
      Built t

/-- The operators stand in the order of their priorities. -/
def Prioritized (settings : List Setting) : Prop :=
  settings.Pairwise fun s t => s.priority < t.priority

theorem mem_insertSetting {new : Setting} {settings made : List Setting}
    (h : insertSetting new settings = .ok made) : ∀ s ∈ made, s = new ∨ s ∈ settings := by
  induction settings generalizing made with
  | nil =>
      obtain rfl := Except.ok.inj h
      simp
  | cons first rest ih =>
      rw [insertSetting] at h
      split at h
      · obtain rfl := Except.ok.inj h
        simp
      · split at h
        · cases h
        · obtain ⟨behind, hbehind, rfl⟩ := map_eq_ok.1 h
          rw [List.forall_mem_cons]
          refine ⟨Or.inr (List.mem_cons_self ..), fun s hs => ?_⟩
          exact (ih hbehind s hs).imp_right (List.mem_cons_of_mem first)

/-- **An operator is put where its priority belongs.** -/
theorem prioritized_insertSetting {new : Setting} {settings made : List Setting}
    (hsettings : Prioritized settings) (h : insertSetting new settings = .ok made) :
    Prioritized made := by
  induction settings generalizing made with
  | nil =>
      obtain rfl := Except.ok.inj h
      exact List.pairwise_singleton ..
  | cons first rest ih =>
      obtain ⟨hfirst, hrest⟩ := List.pairwise_cons.1 hsettings
      rw [insertSetting] at h
      split at h
      · next hlt =>
        obtain rfl := Except.ok.inj h
        refine List.pairwise_cons.2 ⟨?_, hsettings⟩
        rw [List.forall_mem_cons]
        exact ⟨hlt, fun s hs => hlt.trans (hfirst s hs)⟩
      · next hge =>
        split at h
        · cases h
        · next hne =>
          obtain ⟨behind, hbehind, rfl⟩ := map_eq_ok.1 h
          refine List.pairwise_cons.2 ⟨fun s hs => ?_, ih hrest hbehind⟩
          rcases mem_insertSetting hbehind s hs with rfl | hs
          · omega
          · exact hfirst s hs

/-- **Every scanner has its operators in the order of their priorities.** -/
theorem Built.ascending {s : Scanner} (h : s.Built) : Prioritized s.settings := by
  induction h with
  | ofRange range mode => exact .nil
  | setRange _ range ih => exact ih
  | install _ hinstall ih =>
      obtain ⟨made, hmade, rfl⟩ := map_eq_ok.1 hinstall
      exact prioritized_insertSetting ih hmade

/-- The first of the operators for which something holds has the least priority of these. -/
theorem Prioritized.find?_least {settings : List Setting} (h : Prioritized settings)
    {lacks : Setting → Bool} {s : Setting} (hfind : settings.find? lacks = some s) :
    ∀ t ∈ settings, lacks t = true → s.priority ≤ t.priority := by
  obtain ⟨-, before, behind, rfl, hbefore⟩ := List.find?_eq_some_iff_append.1 hfind
  have hbehind := (List.pairwise_cons.1 (List.pairwise_append.1 h).2.1).1
  intro t ht hlacks
  rcases List.mem_append.1 ht with ht | ht
  · have := hbefore t ht
    simp [hlacks] at this
  · rcases List.mem_cons.1 ht with rfl | ht
    · exact le_rfl
    · exact (hbehind t ht).le

end Scanner

/-! ### Pulling -/

namespace Stream

/-- What is pulled from a scan after it was pulled from a number of times, at its end or not. -/
def pull (store : Store) : Nat → Stream → Option ScanItem
  | 0, s => (s.next store).1
  | count + 1, s => pull store count (s.next store).2

/-- **Pulling gives what draining gives**, one item after the other, and nothing ever after. -/
theorem pull_eq (store : Store) (count : Nat) (s : Stream) :
    s.pull store count = (s.drain store)[count]? := by
  induction count generalizing s with
  | zero => rw [pull, (next_eq store s).1, List.head?_eq_getElem?]
  | succ count ih => rw [pull, ih, (next_eq store s).2, List.getElem?_tail]

end Stream

/-! ### One partition -/

namespace Store

variable {store : Store} {scanner : Scanner} {v : Nat × Partition}
  {visited : List (Nat × Partition)} {items : List ScanItem}

/-- The partition runs all operators, and they make these entries of what it holds. -/
structure Gives (store : Store) (scanner : Scanner) (v : Nat × Partition) (out : List Entry) :
    Prop where
  installed : ∀ s ∈ scanner.settings, v.2.runs s.id = true
  made : runOperators store.registry scanner.settings
    (v.2.rows.entries scanner.range scanner.mode) = .ok out

/-- Why a scan stops at a partition. -/
inductive Stops (store : Store) (scanner : Scanner) (v : Nat × Partition) : StoreError → Prop
  /-- It lacks operators, of which the one with the least priority is named. -/
  | lacks {s : Setting} (hs : s ∈ scanner.settings) (hlacks : v.2.runs s.id = false)
      (hleast : ∀ t ∈ scanner.settings, v.2.runs t.id = false → s.priority ≤ t.priority) :
      Stops store scanner v (.missingCapability s.id v.1)
  /-- It lacks none, and one of them fails. -/
  | fails {e : OperatorError} (hinstalled : ∀ s ∈ scanner.settings, v.2.runs s.id = true)
      (hfails : runOperators store.registry scanner.settings
        (v.2.rows.entries scanner.range scanner.mode) = .error e) :
      Stops store scanner v (.operator e)

/-- **A partition gives what the operators make of it, or the scan stops at it.** -/
theorem gives_or_stops (hsettings : Scanner.Prioritized scanner.settings)
    (v : Nat × Partition) :
    (∃ out, store.streamPartition v.1 v.2 scanner = .ok out ∧ store.Gives scanner v out) ∨
      ∃ e, store.streamPartition v.1 v.2 scanner = .error e ∧ store.Stops scanner v e := by
  by_cases hinstalled : ∀ s ∈ scanner.settings, v.2.runs s.id = true
  · rw [streamPartition_of_runs v.1 hinstalled]
    cases hrun : runOperators store.registry scanner.settings
        (v.2.rows.entries scanner.range scanner.mode) with
    | ok out => exact Or.inl ⟨out, rfl, hinstalled, hrun⟩
    | error e => exact Or.inr ⟨_, rfl, .fails hinstalled hrun⟩
  · have hmissing : ∃ s ∈ scanner.settings, v.2.runs s.id = false := by simpa using hinstalled
    obtain ⟨s, hfind, herror⟩ := store.streamPartition_of_lacks v.1 hmissing
    have hlacks : v.2.runs s.id = false := by simpa using List.find?_some hfind
    have hleast : ∀ t ∈ scanner.settings, v.2.runs t.id = false → s.priority ≤ t.priority :=
      fun t ht hmissing => hsettings.find?_least hfind t ht (by simp [hmissing])
    exact Or.inr ⟨_, herror, .lacks (List.mem_of_find?_eq_some hfind) hlacks hleast⟩

/-! ### All partitions -/

/-- **What a scan yields** of the partitions that it visits: what they give, one after the other, up
to the first at which it stops, and there one error and nothing more. -/
inductive Yields (store : Store) (scanner : Scanner) :
    List (Nat × Partition) → List ScanItem → Prop
  | done : Yields store scanner [] []
  | gives {v : Nat × Partition} {rest : List (Nat × Partition)} {out : List Entry}
      {items : List ScanItem} (hgives : store.Gives scanner v out)
      (hrest : Yields store scanner rest items) :
      Yields store scanner (v :: rest) (out.map .ok ++ items)
  | stops {v : Nat × Partition} {rest : List (Nat × Partition)} {e : StoreError}
      (hstops : store.Stops scanner v e) : Yields store scanner (v :: rest) [.error e]

/-- Draining goes through the partitions as they stand. -/
theorem yields_drainPending (hsettings : Scanner.Prioritized scanner.settings)
    (h : ∀ v ∈ visited, store.partitions[v.1]? = some v.2) :
    store.Yields scanner visited
      (Stream.drainPending store scanner (visited.map Prod.fst)) := by
  induction visited with
  | nil => exact .done
  | cons v rest ih =>
      rw [List.forall_mem_cons] at h
      rw [List.map_cons, Stream.drainPending, Stream.visit, h.1]
      dsimp only
      rcases gives_or_stops hsettings v with ⟨out, hout, hgives⟩ | ⟨e, he, hstops⟩
      · rw [hout]
        exact .gives hgives (ih h.2)
      · rw [he]
        exact .stops hstops

/-- The partitions at places that exist. -/
theorem exists_partitions (store : Store) (places : List Nat)
    (h : ∀ index ∈ places, ∃ p, store.partitions[index]? = some p) :
    ∃ visited : List (Nat × Partition), visited.map Prod.fst = places ∧
      ∀ v ∈ visited, store.partitions[v.1]? = some v.2 := by
  induction places with
  | nil => exact ⟨[], rfl, by simp⟩
  | cons index places ih =>
      rw [List.forall_mem_cons] at h
      obtain ⟨⟨p, hp⟩, hplaces⟩ := h
      obtain ⟨visited, hvisited, hall⟩ := ih hplaces
      exact ⟨(index, p) :: visited, by rw [List.map_cons, hvisited],
        List.forall_mem_cons.2 ⟨hp, hall⟩⟩

/-- The partitions that a scan visits: those that its range meets, in their order. -/
structure Visits (store : Store) (scanner : Scanner) (visited : List (Nat × Partition)) :
    Prop where
  inOrder : (visited.map Prod.fst).Pairwise (· < ·)
  mem_iff : ∀ v, v ∈ visited ↔ scanner.range.isEmpty = false ∧
    store.partitions[v.1]? = some v.2 ∧ scanner.range.overlapsSpan v.2.low v.2.high = true

/-- A partition in whose span a key of the range lies is visited. -/
theorem Visits.mem_of_contains (h : store.Visits scanner visited) {index : Nat} {p : Partition}
    (hp : store.partitions[index]? = some p) {key : Bytes}
    (hrange : scanner.range.contains key = true) (hspan : p.span.contains key = true) :
    (index, p) ∈ visited := by
  refine (h.mem_iff _).2 ⟨?_, hp, KeyRange.overlapsSpan_of_contains hrange hspan⟩
  by_contra hempty
  rw [KeyRange.contains_of_isEmpty (by simpa using hempty)] at hrange
  cases hrange

/-- **What a scan yields**, pulled to its end and beyond. -/
theorem exists_yields (store : Store) (hsettings : Scanner.Prioritized scanner.settings) :
    ∃ visited, store.Visits scanner visited ∧
      store.Yields scanner visited (store.scan scanner) := by
  obtain ⟨visited, hplaces, hpartitions⟩ :=
    exists_partitions store (store.openScan scanner).pending fun index hindex => by
      obtain ⟨-, p, hp, -⟩ := mem_pending_openScan.1 hindex
      exact ⟨p, hp⟩
  refine ⟨visited, ⟨?_, fun v => ⟨fun hv => ?_, ?_⟩⟩, ?_⟩
  · rw [hplaces, openScan]
    split
    · exact .nil
    · exact ascending_meeting ..
  · have hmem : v.1 ∈ (store.openScan scanner).pending := hplaces ▸ List.mem_map_of_mem hv
    obtain ⟨hrange, p, hp, hmeets⟩ := mem_pending_openScan.1 hmem
    obtain rfl := Option.some.inj (hp.symm.trans (hpartitions v hv))
    exact ⟨hrange, hp, hmeets⟩
  · rintro ⟨hrange, hp, hmeets⟩
    have hmem : v.1 ∈ visited.map Prod.fst := by
      rw [hplaces]
      exact mem_pending_openScan.2 ⟨hrange, v.2, hp, hmeets⟩
    obtain ⟨w, hw, hplace⟩ := List.mem_map.1 hmem
    have hpartition := hpartitions w hw
    rw [hplace, hp] at hpartition
    rwa [Prod.ext hplace.symm (Option.some.inj hpartition)]
  · have hscan : store.scan scanner =
        Stream.drainPending store scanner (store.openScan scanner).pending := rfl
    rw [hscan, ← hplaces]
    exact yields_drainPending hsettings hpartitions

/-- **A partition that lacks an operator is never passed over**: there is an error at it or before
it. -/
theorem Yields.exists_error (h : store.Yields scanner visited items)
    (hlacks : ∃ v ∈ visited, ∃ s ∈ scanner.settings, v.2.runs s.id = false) :
    ∃ e, .error e ∈ items := by
  induction h with
  | done =>
      obtain ⟨v, hv, -⟩ := hlacks
      cases hv
  | gives hgives _ ih =>
      -- a partition that gives something lacks nothing
      obtain ⟨v, hv, s, hs, hmissing⟩ := hlacks
      rcases List.mem_cons.1 hv with rfl | hv
      · rw [hgives.installed s hs] at hmissing
        cases hmissing
      · obtain ⟨e, he⟩ := ih ⟨v, hv, s, hs, hmissing⟩
        exact ⟨e, List.mem_append_right _ he⟩
  | stops _ => exact ⟨_, List.mem_singleton_self _⟩

end Store

end Strata
