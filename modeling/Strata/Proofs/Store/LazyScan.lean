/-
**Scans that are read while the store is written.**

A scan without operators keeps the places of the partitions that it has not yet visited, and what is
left of the one that it visited last.  A pull takes places off the front until there is an entry; a
call that changes the store leaves both as they are.  So what was pulled, with what is left, is what
the partitions held, each at the pull that took its place off.

* `ScanEvent`, `Reading` — pulls and calls in any order, and where they lead;
* `Progress`, `Reading.Ready.step`, `Reading.Ready.run` — one event, and any events, account for the
  partitions that they visit;
* `Reading.Reaches`, `Reading.Visits` — the pull that reaches a partition, and how that stands then;
* `Reading.Ready.filter_found` — what is found of a partition;
* `Store.scan_interleaved` — **every partition is read once, as it stands when it is reached**.
-/

import Strata.Proofs.Store.Newest
import Strata.Proofs.Store.ScanOrder

set_option relaxedAutoImplicit false
set_option autoImplicit false

namespace Strata

/-! ### Pulls and calls -/

/-- What happens while a scan is open. -/
inductive ScanEvent where
  /-- The next item is pulled. -/
  | pull
  /-- The store is changed. -/
  | call (c : StoreCall)

/-- The call that an event makes, if it makes one. -/
def ScanEvent.call? : ScanEvent → Option StoreCall
  | pull => none
  | call c => some c

/-- A store, and a scan of it that is being read. -/
structure Reading where
  store : Store
  stream : Stream

namespace Reading

/-- What an event pulls, and where it leads. -/
def step (r : Reading) : ScanEvent → Option ScanItem × Reading
  | .pull => ((r.stream.next r.store).1, ⟨r.store, (r.stream.next r.store).2⟩)
  | .call c => (none, ⟨r.store.call c, r.stream⟩)

/-- The items that events pull, in order. -/
def items : Reading → List ScanEvent → List ScanItem
  | _, [] => []
  | r, event :: events => (r.step event).1.toList ++ items (r.step event).2 events

/-- Where events lead. -/
def after (r : Reading) (events : List ScanEvent) : Reading :=
  events.foldl (fun r event => (r.step event).2) r

/-- The pull behind these events takes a partition off those not yet visited. -/
def Reaches (r : Reading) (before : List ScanEvent) (index : Nat) : Prop :=
  index ∈ (r.after before).stream.pending ∧
    index ∉ (r.after (before ++ [.pull])).stream.pending

/-- Some pull reaches a partition, which stands like this then. -/
def Visits (r : Reading) (events : List ScanEvent) (v : Nat × Partition) : Prop :=
  ∃ before, before ++ [.pull] <+: events ∧ r.Reaches before v.1 ∧
    (r.after before).store.partitions[v.1]? = some v.2

theorem after_append (r : Reading) (before events : List ScanEvent) :
    r.after (before ++ events) = (r.after before).after events :=
  List.foldl_append

/-- **The store goes its own way**: a scan that is read has no part in it. -/
theorem store_after (r : Reading) (events : List ScanEvent) :
    (r.after events).store = r.store.run (events.filterMap ScanEvent.call?) := by
  induction events generalizing r with
  | nil => rfl
  | cons event events ih => cases event <;> exact ih _

end Reading

/-! ### What is visited is accounted for -/

section Progress

variable {range : KeyRange} {mode : ScanMode} {s s' s'' : Stream} {items items' : List ScanItem}
variable {visited visited' : List (Nat × Partition)}

/-- From one state of a scan to another some partitions were visited: their places went off the
front, and what was pulled is, with what is left, what was left before and what they held. -/
structure Progress (range : KeyRange) (mode : ScanMode) (s s' : Stream) (items : List ScanItem)
    (visited : List (Nat × Partition)) : Prop where
  pending : s.pending = visited.map Prod.fst ++ s'.pending
  entries : ∃ found : List Entry, items = found.map .ok ∧
    found ++ s'.buffer = s.buffer ++ visited.flatMap fun v => v.2.rows.entries range mode
  scanner : s'.scanner = s.scanner
  failed : s'.failed = s.failed

theorem Progress.refl (range : KeyRange) (mode : ScanMode) (s : Stream) :
    Progress range mode s s [] [] :=
  ⟨rfl, ⟨[], rfl, (List.append_nil _).symm⟩, rfl, rfl⟩

theorem Progress.trans (h : Progress range mode s s' items visited)
    (h' : Progress range mode s' s'' items' visited') :
    Progress range mode s s'' (items ++ items') (visited ++ visited') := by
  obtain ⟨found, rfl, hfound⟩ := h.entries
  obtain ⟨found', rfl, hfound'⟩ := h'.entries
  refine ⟨?_, ⟨found ++ found', List.map_append.symm, ?_⟩, h'.scanner.trans h.scanner,
    h'.failed.trans h.failed⟩
  · rw [h.pending, h'.pending, List.map_append, List.append_assoc]
  · rw [List.append_assoc, hfound', ← List.append_assoc, hfound, List.append_assoc,
      List.flatMap_append]

/-- Partitions are visited until one holds an entry in range. -/
theorem Stream.progress_advance (store : Store) (pending : List Nat)
    (hplaces : ∀ index ∈ pending, index < store.partitions.length) :
    ∃ visited, (∀ v ∈ visited, store.partitions[v.1]? = some v.2) ∧
      Progress range mode ⟨.ofRange range mode, pending, [], false⟩
        (advance store (.ofRange range mode) pending).2
        (advance store (.ofRange range mode) pending).1.toList visited := by
  induction pending with
  | nil => exact ⟨[], by simp, Progress.refl range mode _⟩
  | cons index pending ih =>
      obtain ⟨hindex, hplaces⟩ := List.forall_mem_cons.1 hplaces
      obtain ⟨p, hp⟩ : ∃ p, store.partitions[index]? = some p :=
        ⟨_, List.getElem?_eq_getElem hindex⟩
      have hvisit : visit store (.ofRange range mode) index =
          .ok (p.rows.entries range mode) := by
        rw [visit, hp]
        rfl
      rw [advance, hvisit]
      cases hentries : p.rows.entries range mode with
      | nil =>
          obtain ⟨visited, hvisited, hrest⟩ := ih hplaces
          have hfirst : Progress range mode ⟨.ofRange range mode, index :: pending, [], false⟩
              ⟨.ofRange range mode, pending, [], false⟩ [] [(index, p)] :=
            ⟨rfl, ⟨[], rfl, by simp [hentries]⟩, rfl, rfl⟩
          exact ⟨(index, p) :: visited, List.forall_mem_cons.2 ⟨hp, hvisited⟩, hfirst.trans hrest⟩
      | cons entry buffer =>
          exact ⟨[(index, p)], by simpa using hp, rfl, ⟨[entry], rfl, by simp [hentries]⟩, rfl, rfl⟩

theorem Stream.left_of_advance {store : Store} {scanner : Scanner} {pending : List Nat}
    (h : (advance store scanner pending).1 = none) :
    (advance store scanner pending).2.pending = [] ∧
      (advance store scanner pending).2.buffer = [] := by
  induction pending with
  | nil => exact ⟨rfl, rfl⟩
  | cons index pending ih =>
      rw [advance] at h ⊢
      cases hvisit : visit store scanner index with
      | error e => simp [hvisit] at h
      | ok entries =>
          cases entries with
          | nil =>
              rw [hvisit] at h
              exact ih h
          | cons entry buffer => simp [hvisit] at h

/-- **The end of a scan**: where a pull returns nothing no partition is pending and nothing is
left. -/
theorem Stream.left_of_next {store : Store} {s : Stream} (hrunning : s.failed = false)
    (h : (s.next store).1 = none) :
    (s.next store).2.pending = [] ∧ (s.next store).2.buffer = [] := by
  obtain ⟨scanner, pending, buffer, failed⟩ := s
  obtain rfl : failed = false := hrunning
  cases buffer with
  | nil => exact left_of_advance h
  | cons entry buffer => cases h

end Progress

namespace Reading

variable {range : KeyRange} {mode : ScanMode} {r : Reading}

/-- The scan of a sound store reads without operators and has not failed, and what it has not yet
visited are partitions of the store, in order. -/
structure Ready (range : KeyRange) (mode : ScanMode) (r : Reading) : Prop where
  sound : r.store.Sound
  scanner : r.stream.scanner = .ofRange range mode
  running : r.stream.failed = false
  ascending : r.stream.pending.Pairwise (· < ·)
  places : ∀ index ∈ r.stream.pending, index < r.store.bounds.length

/-- What happens at one event: only a pull visits partitions, as they stand. -/
theorem Ready.step (h : r.Ready range mode) (event : ScanEvent) :
    (r.step event).2.Ready range mode ∧ (r.step event).2.store.bounds = r.store.bounds ∧
      ∃ visited, Progress range mode r.stream (r.step event).2.stream (r.step event).1.toList
          visited ∧
        ∀ v ∈ visited, event = .pull ∧ r.store.partitions[v.1]? = some v.2 := by
  cases event with
  | call c =>
      have hbounds := Store.bounds_call h.sound c
      refine ⟨⟨(Store.toMap_call h.sound c).1, h.scanner, h.running, h.ascending, ?_⟩, hbounds,
        [], Progress.refl range mode _, by simp⟩
      exact fun index hindex => hbounds ▸ h.places index hindex
  | pull =>
      obtain ⟨visited, hprogress, hvisited⟩ : ∃ visited,
          Progress range mode r.stream (r.stream.next r.store).2
            (r.stream.next r.store).1.toList visited ∧
          ∀ v ∈ visited, r.store.partitions[v.1]? = some v.2 := by
        obtain ⟨store, scanner, pending, buffer, failed⟩ := r
        obtain rfl : scanner = .ofRange range mode := h.scanner
        obtain rfl : failed = false := h.running
        cases buffer with
        | nil =>
            have hplaces : ∀ index ∈ pending, index < store.partitions.length := by
              simpa [Store.bounds] using h.places
            obtain ⟨visited, hvisited, hprogress⟩ := Stream.progress_advance store pending hplaces
            exact ⟨visited, hprogress, hvisited⟩
        | cons entry buffer =>
            exact ⟨[], ⟨rfl, ⟨[entry], rfl, (List.append_nil _).symm⟩, rfl, rfl⟩, by simp⟩
      have hpending : (r.stream.next r.store).2.pending.Sublist r.stream.pending := by
        rw [hprogress.pending]
        exact List.sublist_append_right _ _
      refine ⟨⟨h.sound, hprogress.scanner.trans h.scanner, hprogress.failed.trans h.running,
        h.ascending.sublist hpending, fun index hindex => h.places index (hpending.subset hindex)⟩,
        rfl, visited, hprogress, fun v hv => ⟨rfl, hvisited v hv⟩⟩

/-- **Any events account for the partitions that they visit**, each as it stands at the pull that
reaches it. -/
theorem Ready.run (h : r.Ready range mode) (events : List ScanEvent) :
    (r.after events).Ready range mode ∧ (r.after events).store.bounds = r.store.bounds ∧
      ∃ visited, Progress range mode r.stream (r.after events).stream (r.items events) visited ∧
        ∀ v ∈ visited, r.Visits events v := by
  induction events generalizing r with
  | nil => exact ⟨h, rfl, [], Progress.refl range mode _, by simp⟩
  | cons event events ih =>
      obtain ⟨hready, hbounds, visited, hprogress, hvisited⟩ := h.step event
      obtain ⟨hfinal, hbounds', others, hprogress', hothers⟩ := ih hready
      refine ⟨hfinal, hbounds'.trans hbounds, visited ++ others, hprogress.trans hprogress', ?_⟩
      intro v hv
      rcases List.mem_append.1 hv with hv | hv
      · obtain ⟨rfl, hp⟩ := hvisited v hv
        have hmem : v.1 ∈ visited.map Prod.fst := List.mem_map_of_mem hv
        refine ⟨[], List.prefix_append [_] events, ⟨?_, fun hagain => ?_⟩, hp⟩
        · show v.1 ∈ r.stream.pending
          rw [hprogress.pending]
          exact List.mem_append_left _ hmem
        · -- a place that was taken off does not come again behind it
          have hasc := h.ascending
          rw [hprogress.pending] at hasc
          exact absurd ((List.pairwise_append.1 hasc).2.2 _ hmem _ hagain) (lt_irrefl _)
      · obtain ⟨before, hbefore, hreaches, hp⟩ := hothers v hv
        exact ⟨event :: before, List.cons_prefix_cons.2 ⟨rfl, hbefore⟩, hreaches, hp⟩

/-- What was visited stays visited. -/
theorem Ready.pending_subset (h : r.Ready range mode) (before events : List ScanEvent) :
    (r.after (before ++ events)).stream.pending ⊆ (r.after before).stream.pending := by
  obtain ⟨-, -, visited, hprogress, -⟩ := (h.run before).1.run events
  rw [after_append, hprogress.pending]
  exact List.subset_append_right _ _

/-- **One pull reaches a partition.** -/
theorem Ready.reaches_unique (h : r.Ready range mode) {events before other : List ScanEvent}
    {index : Nat} (hbefore : before ++ [.pull] <+: events) (hother : other ++ [.pull] <+: events)
    (hreaches : r.Reaches before index) (hreaches' : r.Reaches other index) : other = before := by
  have hlonger : ∀ {a b : List ScanEvent}, a ++ [.pull] <+: events → b <+: events →
      r.Reaches a index → r.Reaches b index → b.length ≤ a.length := by
    intro a b ha hb hra hrb
    by_contra hlt
    -- the pull that reached it came before, so the partition was visited already
    obtain ⟨rest, rfl⟩ := List.prefix_of_prefix_length_le ha hb
      (by simpa [Nat.succ_le_iff] using hlt)
    exact hra.2 (h.pending_subset _ rest hrb.1)
  have hbefore' := (List.prefix_append before [.pull]).trans hbefore
  have hother' := (List.prefix_append other [.pull]).trans hother
  have hle := hlonger hbefore hother' hreaches hreaches'
  have hge := hlonger hother hbefore' hreaches' hreaches
  exact (List.prefix_of_prefix_length_le hother' hbefore' hle).eq_of_length (hle.antisymm hge)

end Reading

/-! ### Partitions as they stood -/

namespace Store

variable {store : Store} {range : KeyRange} {mode : ScanMode}

/-- The partitions that a range meets come in the order of their places. -/
theorem ascending_meeting (range : KeyRange) (start : Nat) (partitions : List Partition) :
    (meeting range start partitions).Pairwise (· < ·) := by
  induction partitions generalizing start with
  | nil => exact .nil
  | cons p rest ih =>
      rw [meeting]
      split
      · refine List.pairwise_cons.2 ⟨fun index hindex => ?_, ih (start + 1)⟩
        obtain ⟨i, -, rfl, -, -⟩ := mem_meeting.1 hindex
        exact Nat.lt_of_lt_of_le (Nat.lt_succ_self start) (Nat.le_add_right _ i)
      · exact ih (start + 1)

/-- What a scan is to visit when it is opened. -/
theorem mem_pending_openScan {scanner : Scanner} {index : Nat} :
    index ∈ (store.openScan scanner).pending ↔ scanner.range.isEmpty = false ∧
      ∃ p, store.partitions[index]? = some p ∧
        scanner.range.overlapsSpan p.low p.high = true := by
  rw [openScan]
  split
  · next hempty => simp [hempty]
  · next hopen => simp [hopen, mem_meeting]

/-- A partition lies in the span of its place. -/
theorem bounds_eq_some_iff {index : Nat} {span : Option Bytes × Option Bytes} :
    store.bounds[index]? = some span ↔
      ∃ p, store.partitions[index]? = some p ∧ (p.low, p.high) = span := by
  rw [bounds, List.getElem?_map, Option.map_eq_some_iff]

/-- Stores with the same split points have the same spans at every place. -/
theorem exists_span_eq {other : Store} (h : other.bounds = store.bounds) {index : Nat}
    {p : Partition} (hp : other.partitions[index]? = some p) :
    ∃ q, store.partitions[index]? = some q ∧ q.low = p.low ∧ q.high = p.high := by
  have hindex := bounds_eq_some_iff.2 ⟨p, hp, rfl⟩
  rw [h] at hindex
  obtain ⟨q, hq, hspan⟩ := bounds_eq_some_iff.1 hindex
  exact ⟨q, hq, Prod.mk.inj hspan⟩

/-- The entries of a partition stand in the order of a scan. -/
theorem Sound.pairwise_partition (h : store.Sound) {p : Partition} (hp : p ∈ store.partitions)
    (range : KeyRange) (mode : ScanMode) :
    (p.rows.entries range mode).Pairwise fun a b =>
      a.Before b ∧ (mode = .latest → a.key < b.key) := by
  refine pairwise_entries (h.placed.sorted p hp) (fun _ _ hlt => ⟨Or.inl hlt, fun _ => hlt⟩) ?_
  intro row hrow
  cases mode with
  | latest => exact List.pairwise_singleton ..
  | allVersions =>
      have hchain := h.chains row (List.mem_flatMap.2 ⟨p, hp, hrow⟩)
      exact (pairwise_before_chain hchain row.1 .allVersions).imp fun hab => ⟨hab, nofun⟩

/-- Partitions at different places lie apart, whatever was written in between. -/
theorem Sound.apart_of_lt (h : store.Sound) {i j : Nat} (hlt : i < j) {before after : Store}
    (hbefore : before.bounds = store.bounds) (hafter : after.bounds = store.bounds)
    {p q : Partition} (hp : before.partitions[i]? = some p)
    (hq : after.partitions[j]? = some q) : p.Apart q := by
  obtain ⟨p', hp', -, hhigh⟩ := exists_span_eq hbefore hp
  obtain ⟨q', hq', hlow, -⟩ := exists_span_eq hafter hq
  obtain ⟨hi, rfl⟩ := List.getElem?_eq_some_iff.1 hp'
  obtain ⟨hj, rfl⟩ := List.getElem?_eq_some_iff.1 hq'
  have happart := List.pairwise_iff_getElem.1 h.tiles.pairwise_apart i j hi hj hlt
  rwa [Partition.Apart, hhigh, hlow] at happart

/-- A scan without operators that was just opened. -/
theorem Sound.ready (h : store.Sound) (range : KeyRange) (mode : ScanMode) :
    Reading.Ready range mode ⟨store, store.openScan (.ofRange range mode)⟩ where
  sound := h
  scanner := rfl
  running := rfl
  ascending := by
    simp only [openScan]
    split
    · exact .nil
    · exact ascending_meeting ..
  places index hindex := by
    simpa [bounds] using (pending_openScan hindex).1

end Store

namespace Reading

variable {range : KeyRange} {mode : ScanMode} {r : Reading} {events : List ScanEvent}

/-- A partition that was visited is one of a sound store with the same split points. -/
theorem Ready.exists_store (h : r.Ready range mode) {v : Nat × Partition}
    (hv : r.Visits events v) : ∃ store : Store, store.Sound ∧ store.bounds = r.store.bounds ∧
      store.partitions[v.1]? = some v.2 := by
  obtain ⟨before, -, -, hp⟩ := hv
  obtain ⟨hready, hbounds, -⟩ := h.run before
  exact ⟨_, hready.sound, hbounds, hp⟩

/-- **What was pulled, and what is left**: entries of partitions that lie apart, as they stood when
they were reached. -/
theorem Ready.exists_found (h : r.Ready range mode) (hbuffer : r.stream.buffer = [])
    (events : List ScanEvent) :
    ∃ (found : List Entry) (visited : List (Nat × Partition)),
      r.items events = found.map .ok ∧
      found ++ (r.after events).stream.buffer =
        (visited.map Prod.snd).flatMap (fun p => p.rows.entries range mode) ∧
      r.stream.pending = visited.map Prod.fst ++ (r.after events).stream.pending ∧
      (∀ v ∈ visited, r.Visits events v) ∧
      (visited.map Prod.snd).Pairwise Partition.Apart ∧
      ∀ p ∈ visited.map Prod.snd, ∀ e ∈ p.rows.entries range mode,
        p.span.contains e.key = true := by
  obtain ⟨-, -, visited, hprogress, hvisited⟩ := h.run events
  obtain ⟨found, hitems, hfound⟩ := hprogress.entries
  rw [hbuffer, List.nil_append] at hfound
  refine ⟨found, visited, hitems, by rw [hfound, List.flatMap_map], hprogress.pending, hvisited,
    ?_, ?_⟩
  · have hasc := h.ascending
    rw [hprogress.pending] at hasc
    have hplaces := List.pairwise_map.1 (List.pairwise_append.1 hasc).1
    refine List.pairwise_map.2 (hplaces.imp_of_mem ?_)
    intro v w hv hw hlt
    obtain ⟨before, -, hbefore, hp⟩ := h.exists_store (hvisited v hv)
    obtain ⟨after, -, hafter, hq⟩ := h.exists_store (hvisited w hw)
    exact h.sound.apart_of_lt hlt hbefore hafter hp hq
  · intro p hp e he
    obtain ⟨v, hv, rfl⟩ := List.mem_map.1 hp
    obtain ⟨store, hsound, -, hstood⟩ := h.exists_store (hvisited v hv)
    exact Store.contains_of_mem_entries (hsound.placed.inSpan v.2 (List.mem_of_getElem? hstood)) he

/-- **What is found of the partition at a place**: what it held when it was visited, and nothing if
it was not. -/
theorem Ready.filter_found (h : r.Ready range mode) (hbuffer : r.stream.buffer = [])
    {found : List Entry} (hitems : r.items events = found.map .ok) {index : Nat}
    {span : Option Bytes × Option Bytes} (hindex : r.store.bounds[index]? = some span) :
    let own := (found ++ (r.after events).stream.buffer).filter fun e =>
      (KeyRange.halfOpen span.1 span.2).contains e.key
    (index ∉ r.stream.pending ∨ index ∈ (r.after events).stream.pending → own = []) ∧
    (index ∈ r.stream.pending → index ∉ (r.after events).stream.pending →
      ∃ p, r.Visits events (index, p) ∧ own = p.rows.entries range mode) := by
  intro own
  obtain ⟨found', visited, hitems', hfound, hpending, hvisited, happart, hspan⟩ :=
    h.exists_found hbuffer events
  obtain rfl : found = found' := map_ok_injective (hitems.symm.trans hitems')
  have hown : own = ((visited.map Prod.snd).flatMap fun p => p.rows.entries range mode).filter
      fun e => (KeyRange.halfOpen span.1 span.2).contains e.key := by
    rw [← hfound]
  constructor
  · intro hunvisited
    have hasc := h.ascending
    rw [hpending] at hasc hunvisited
    rw [hown]
    refine List.filter_eq_nil_iff.2 fun e he => ?_
    obtain ⟨p, hp, he⟩ := List.mem_flatMap.1 he
    obtain ⟨v, hv, rfl⟩ := List.mem_map.1 hp
    have hplace : v.1 ∈ visited.map Prod.fst := List.mem_map_of_mem hv
    have hne : v.1 ≠ index := by
      rintro rfl
      rcases hunvisited with hskipped | hlater
      · exact hskipped (List.mem_append_left _ hplace)
      · exact lt_irrefl _ ((List.pairwise_append.1 hasc).2.2 _ hplace _ hlater)
    -- it was found in a partition that lies apart
    obtain ⟨store, -, hstore, hstood⟩ := h.exists_store (hvisited v hv)
    obtain ⟨q, hq, rfl⟩ := Store.bounds_eq_some_iff.1 hindex
    have hother : q.span.contains e.key = false := by
      rcases lt_or_gt_of_ne hne with hlt | hgt
      · exact (h.sound.apart_of_lt hlt hstore rfl hstood hq).contains_left (hspan v.2 hp e he)
      · exact (h.sound.apart_of_lt hgt rfl hstore hq hstood).contains_right (hspan v.2 hp e he)
    exact Bool.eq_false_iff.1 hother
  · intro hbefore hvisited'
    rw [hpending] at hbefore
    obtain ⟨v, hv, rfl⟩ := List.mem_map.1 ((List.mem_append.1 hbefore).resolve_right hvisited')
    refine ⟨v.2, hvisited v hv, ?_⟩
    obtain ⟨store, -, hstore, hstood⟩ := h.exists_store (hvisited v hv)
    rw [← hstore] at hindex
    obtain ⟨p, hp, rfl⟩ := Store.bounds_eq_some_iff.1 hindex
    obtain rfl : v.2 = p := Option.some.inj (hstood.symm.trans hp)
    rw [hown]
    exact filter_flatMap_span happart hspan (List.mem_map_of_mem hv)

/-- Everything that is found stands in the order of a scan. -/
theorem Ready.pairwise_found (h : r.Ready range mode) (hbuffer : r.stream.buffer = [])
    {found : List Entry} (hitems : r.items events = found.map .ok) :
    found.Pairwise fun a b => a.Before b ∧ (mode = .latest → a.key < b.key) := by
  obtain ⟨found', visited, hitems', hfound, -, hvisited, happart, hspan⟩ :=
    h.exists_found hbuffer events
  obtain rfl : found = found' := map_ok_injective (hitems.symm.trans hitems')
  refine List.Pairwise.sublist (List.sublist_append_left found (r.after events).stream.buffer) ?_
  rw [hfound]
  refine Store.pairwise_flatMap_apart happart hspan (fun _ _ hlt => ⟨Or.inl hlt, fun _ => hlt⟩) ?_
  intro p hp
  obtain ⟨v, hv, rfl⟩ := List.mem_map.1 hp
  obtain ⟨store, hsound, -, hstood⟩ := h.exists_store (hvisited v hv)
  exact hsound.pairwise_partition (List.mem_of_getElem? hstood) range mode

end Reading

namespace Store

/-- **A scan that is read while the store is written.**  A store is asked anything, a scan of any
range and mode is opened, and then items are pulled and calls made in any order.  No item is an
error; the keys ascend, strictly if the scan is for the newest versions, no stamp comes twice, and
the scan ends only when no partition is pending and nothing is left.  Take the partition at any
place, and of all that was pulled or is left what lies in its span.  That is nothing if the range
does not meet the partition, which then never holds an entry in range, and nothing while the
partition is pending.  Otherwise one pull reached the partition, and it is what the partition held
in range then, after the calls made before that pull and none made later. -/
theorem scan_interleaved (layout : StoreLayout) (registry : Registry) (calls : List StoreCall)
    (range : KeyRange) (mode : ScanMode) (events : List ScanEvent) :
    let store := (ofLayout layout registry).run calls
    let opened : Reading := ⟨store, store.openScan (.ofRange range mode)⟩
    let final := opened.after events
    ∃ found : List Entry, opened.items events = found.map .ok ∧
      found.Pairwise (fun a b => a.key ≤ b.key ∧ (mode = .latest → a.key < b.key)) ∧
      (found.map Entry.stamp).Nodup ∧
      ((final.step .pull).1 = none →
        (final.step .pull).2.stream.pending = [] ∧ (final.step .pull).2.stream.buffer = []) ∧
      ∀ index span, store.bounds[index]? = some span →
        let own := (found ++ final.stream.buffer).filter fun e =>
          (KeyRange.halfOpen span.1 span.2).contains e.key
        (range.isEmpty = true ∨ range.overlapsSpan span.1 span.2 = false →
          own = [] ∧ ∀ later p, (store.run later).partitions[index]? = some p →
            p.rows.entries range mode = []) ∧
        (index ∈ final.stream.pending → own = []) ∧
        (range.isEmpty = false → range.overlapsSpan span.1 span.2 = true →
          index ∉ final.stream.pending →
          ∃ before p, (before ++ [.pull] <+: events ∧ opened.Reaches before index ∧
            ∀ other, other ++ [.pull] <+: events → opened.Reaches other index → other = before) ∧
            (store.run (before.filterMap ScanEvent.call?)).partitions[index]? = some p ∧
            own = p.rows.entries range mode) := by
  intro store opened final
  have hsound : store.Sound := sound_run layout registry calls
  have hready : opened.Ready range mode := hsound.ready range mode
  obtain ⟨found, -, hitems, -⟩ := hready.exists_found rfl events
  have horder := hready.pairwise_found rfl hitems
  refine ⟨found, hitems, horder.imp ?_, ?_, Stream.left_of_next (hready.run events).1.running, ?_⟩
  · rintro a b ⟨hlt | ⟨heq, -⟩, hstrict⟩
    · exact ⟨hlt.le, hstrict⟩
    · exact ⟨heq.le, hstrict⟩
  · refine List.pairwise_map.2 (horder.imp ?_)
    rintro a b ⟨hlt | ⟨-, hlt⟩, -⟩ hstamp
    · exact hlt.ne (congrArg Prod.fst hstamp)
    · exact hlt.ne (congrArg Prod.snd hstamp).symm
  · intro index span hindex own
    obtain ⟨hnone, hvisited⟩ := hready.filter_found rfl hitems hindex
    obtain ⟨q, hq, rfl⟩ := bounds_eq_some_iff.1 hindex
    have hmet : index ∈ opened.stream.pending ↔
        range.isEmpty = false ∧ range.overlapsSpan q.low q.high = true := by
      refine mem_pending_openScan.trans (and_congr_right fun _ => ⟨?_, fun h => ⟨q, hq, h⟩⟩)
      rintro ⟨p, hp, hmeets⟩
      obtain rfl : p = q := Option.some.inj (hp.symm.trans hq)
      exact hmeets
    refine ⟨fun hno => ⟨hnone (Or.inl ?_), fun later p hp => ?_⟩, fun h => hnone (Or.inr h), ?_⟩
    · rw [hmet]
      rintro ⟨hopen, hmeets⟩
      simp [hopen, hmeets] at hno
    · -- its rows keep to the same span whatever is written
      have hlater := (toMap_run hsound later).1
      obtain ⟨q', hq', hlow, hhigh⟩ := exists_span_eq (bounds_run hsound later) hp
      obtain rfl : q' = q := Option.some.inj (hq'.symm.trans hq)
      rw [hlow, hhigh] at hno
      exact entries_of_not_meets (hlater.placed.inSpan p (List.mem_of_getElem? hp)) hno
    · intro hopen hmeets hdone
      obtain ⟨p, ⟨before, hbegins, hreaches, hp⟩, hown⟩ := hvisited (hmet.2 ⟨hopen, hmeets⟩) hdone
      rw [Reading.store_after] at hp
      refine ⟨before, p, ⟨hbegins, hreaches, fun other hother hagain => ?_⟩, hp, hown⟩
      exact hready.reaches_unique hbegins hother hreaches hagain

/-- The first partition was reached before the batch, the second behind it. -/
example :
    let key := Codec.LongWord.write
    let store := (ofLayout ⟨[key 2], Limits.standard, none⟩ (.builtin id)).run
      [.writeBatch [.put (key 1) [1], .put (key 2) [1]]]
    let opened : Reading := ⟨store, store.openScan (.ofRange .full .latest)⟩
    opened.items [.pull, .call (.writeBatch [.put (key 1) [2], .put (key 2) [2]]), .pull] =
      [.ok ⟨key 1, [1], 1⟩, .ok ⟨key 2, [2], 4⟩] := rfl

end Store

end Strata
