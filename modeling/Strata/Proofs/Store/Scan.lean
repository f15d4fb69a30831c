/-
**What a scan returns.**

Reading a scan step by step returns what draining it at once returns.  What a drained scan returns
is put together from what the scan makes of each partition: a partition that the range does not meet
is skipped, and holds no entry of the range either.  So a scan of a sound store without operators
returns the entries of the one list of rows.

* `Stream.take_eq_take_drain` — pulling items and draining agree;
* `Store.streamPartition_of_runs`, `Store.streamPartition_of_lacks` — what a scan makes of a
  partition that has all operators, and of one that lacks some;
* `Store.made`, `Store.scan_eq_made` — a scan is the concatenation of what it makes of the
  partitions, if none of them fails;
* `Store.exists_scan` — a scan whose operators do not fail;
* `Store.Sound.scan_ofRange` — **a scan without operators**.
-/

import Strata.Proofs.Store.Contents
import Strata.Store.Stream

set_option relaxedAutoImplicit false
set_option autoImplicit false

namespace Strata

/-! ### Pulling and draining -/

namespace Stream

variable (store : Store) (scanner : Scanner)

/-- Visiting partitions until there is an entry splits off the first item of all that they give. -/
theorem advance_eq (pending : List Nat) :
    (advance store scanner pending).1 = (drainPending store scanner pending).head? ∧
      (advance store scanner pending).2.drain store =
        (drainPending store scanner pending).tail := by
  induction pending with
  | nil => exact ⟨rfl, rfl⟩
  | cons index pending ih =>
      rw [advance, drainPending]
      cases hvisit : visit store scanner index with
      | error e => exact ⟨rfl, rfl⟩
      | ok entries =>
          cases entries with
          | nil => exact ih
          | cons entry entries => exact ⟨rfl, rfl⟩

/-- The next item is the first of what is left, and what is left behind it is the rest. -/
theorem next_eq (s : Stream) :
    (s.next store).1 = (s.drain store).head? ∧
      (s.next store).2.drain store = (s.drain store).tail := by
  obtain ⟨scanner, pending, buffer, failed⟩ := s
  cases failed with
  | true => exact ⟨rfl, rfl⟩
  | false =>
      cases buffer with
      | nil => exact advance_eq store scanner pending
      | cons entry buffer => exact ⟨rfl, rfl⟩

/-- **Pulling items one by one returns what draining returns.** -/
theorem take_eq_take_drain (count : Nat) (s : Stream) :
    (s.take store count).1 = (s.drain store).take count := by
  induction count generalizing s with
  | zero => rfl
  | succ count ih =>
      obtain ⟨hhead, htail⟩ := next_eq store s
      rw [take]
      split
      · next s' hnext =>
        have hnil : s.drain store = [] := by
          rw [← List.head?_eq_none_iff, ← hhead, hnext]
        rw [hnil]
        rfl
      · next item s' hnext =>
        rw [hnext] at hhead htail
        have hcons : s.drain store = item :: s'.drain store := by
          rw [htail]
          exact (List.cons_head?_tail hhead.symm).symm
        rw [hcons, List.take_succ_cons, ← ih]

/-- Partitions that give entries give them one after the other. -/
theorem drainPending_eq_of_ok {pending : List Nat} {out : Nat → List Entry}
    (h : ∀ index ∈ pending, visit store scanner index = .ok (out index)) :
    drainPending store scanner pending = (pending.flatMap out).map .ok := by
  induction pending with
  | nil => rfl
  | cons index pending ih =>
      rw [List.forall_mem_cons] at h
      rw [drainPending, h.1, ih h.2, List.flatMap_cons, List.map_append]

/-- Partitions that give no error each give entries. -/
theorem visit_of_drainPending_eq_ok {pending : List Nat} {entries : List Entry}
    (h : drainPending store scanner pending = entries.map .ok) :
    ∀ index ∈ pending, ∃ out, visit store scanner index = .ok out := by
  induction pending generalizing entries with
  | nil => simp
  | cons index pending ih =>
      rw [drainPending] at h
      cases hvisit : visit store scanner index with
      | error e =>
          rw [hvisit] at h
          cases entries <;> simp at h
      | ok out =>
          rw [hvisit] at h
          obtain ⟨front, back, -, -, hback⟩ := List.append_eq_map_iff.1 h
          exact List.forall_mem_cons.2 ⟨⟨out, hvisit⟩, ih hback.symm⟩

end Stream

/-! ### Partitions that a range meets -/

namespace Store

theorem mem_meeting {range : KeyRange} {partitions : List Partition} {start index : Nat} :
    index ∈ meeting range start partitions ↔
      ∃ i p, index = start + i ∧ partitions[i]? = some p ∧
        range.overlapsSpan p.low p.high = true := by
  induction partitions generalizing start with
  | nil => simp [meeting]
  | cons p rest ih =>
      have htail : index ∈ meeting range (start + 1) rest ↔
          ∃ i q, index = start + (i + 1) ∧ rest[i]? = some q ∧
            range.overlapsSpan q.low q.high = true := by
        rw [ih]
        simp only [Nat.add_assoc, Nat.add_comm 1]
      have hcases : index ∈ meeting range start (p :: rest) ↔
          (index = start ∧ range.overlapsSpan p.low p.high = true) ∨
            index ∈ meeting range (start + 1) rest := by
        rw [meeting]
        split <;> simp_all
      rw [hcases, htail]
      constructor
      · rintro (⟨rfl, hp⟩ | ⟨i, q, hi, hq, hoverlaps⟩)
        · exact ⟨0, p, rfl, rfl, hp⟩
        · exact ⟨i + 1, q, hi, hq, hoverlaps⟩
      · rintro ⟨_ | i, q, hi, hq, hoverlaps⟩
        · obtain rfl : p = q := by simpa using hq
          exact Or.inl ⟨hi, hoverlaps⟩
        · exact Or.inr ⟨i, q, hi, by simpa using hq, hoverlaps⟩

/-- Partitions that are skipped may be counted in when nothing comes of them. -/
theorem flatMap_meeting {range : KeyRange} {partitions : List Partition} (start : Nat)
    {out : Nat → List Entry} {made : Partition → List Entry}
    (hout : ∀ i p, partitions[i]? = some p → out (start + i) = made p)
    (hskip : ∀ p ∈ partitions, range.overlapsSpan p.low p.high = false → made p = []) :
    (meeting range start partitions).flatMap out = partitions.flatMap made := by
  induction partitions generalizing start with
  | nil => rfl
  | cons p rest ih =>
      rw [List.forall_mem_cons] at hskip
      have hrest := ih (start + 1)
        (fun i q hq => by
          rw [Nat.add_assoc, Nat.add_comm 1]
          exact hout (i + 1) q (by simpa using hq))
        hskip.2
      rw [meeting, List.flatMap_cons]
      split
      · rw [List.flatMap_cons, hrest, ← hout 0 p rfl, Nat.add_zero]
      · next hno => rw [hrest, hskip.1 (by simpa using hno), List.nil_append]

variable {store : Store} {scanner : Scanner}

/-- **A scan in which nothing fails** returns what it makes of one partition after the other. -/
theorem scan_eq_of_ok {made : Partition → List Entry}
    (hok : ∀ index p, store.partitions[index]? = some p → scanner.range.isEmpty = false →
      scanner.range.overlapsSpan p.low p.high = true →
      store.streamPartition index p scanner = .ok (made p))
    (hskip : ∀ p ∈ store.partitions,
      scanner.range.isEmpty = true ∨ scanner.range.overlapsSpan p.low p.high = false →
      made p = []) :
    store.scan scanner = (store.partitions.flatMap made).map .ok := by
  rw [scan, openScan, Stream.drain]
  simp only [Bool.false_eq_true, if_false, List.map_nil, List.nil_append]
  split
  · next hempty =>
    have hnil : store.partitions.flatMap made = [] :=
      List.flatMap_eq_nil_iff.2 fun p hp => hskip p hp (Or.inl hempty)
    rw [hnil]
    rfl
  · next hempty =>
    -- partitions are visited by their index
    let out (index : Nat) : List Entry := (store.partitions[index]?).elim [] made
    have hvisit : ∀ index ∈ meeting scanner.range 0 store.partitions,
        Stream.visit store scanner index = .ok (out index) := by
      intro index hindex
      obtain ⟨i, p, rfl, hp, hoverlaps⟩ := mem_meeting.1 hindex
      rw [Nat.zero_add, Stream.visit, hp]
      simpa [out, hp] using hok i p hp (by simpa using hempty) hoverlaps
    have hout : ∀ i p, store.partitions[i]? = some p → out (0 + i) = made p :=
      fun i p hp => by simp [out, hp]
    rw [Stream.drainPending_eq_of_ok store scanner hvisit,
      flatMap_meeting 0 hout fun p hp hno => hskip p hp (Or.inr hno)]

/-- A scan that returns no error makes entries of every partition that it meets. -/
theorem streamPartition_of_scan_eq_ok {entries : List Entry}
    (h : store.scan scanner = entries.map .ok) (hrange : scanner.range.isEmpty = false)
    {index : Nat} {p : Partition} (hp : store.partitions[index]? = some p)
    (hoverlaps : scanner.range.overlapsSpan p.low p.high = true) :
    ∃ out, store.streamPartition index p scanner = .ok out := by
  rw [scan, openScan, Stream.drain] at h
  simp only [hrange, Bool.false_eq_true, if_false, List.map_nil, List.nil_append] at h
  have hmem : index ∈ meeting scanner.range 0 store.partitions :=
    mem_meeting.2 ⟨index, p, (Nat.zero_add _).symm, hp, hoverlaps⟩
  obtain ⟨out, hout⟩ := Stream.visit_of_drainPending_eq_ok store scanner h index hmem
  rw [Stream.visit, hp] at hout
  exact ⟨out, hout⟩

/-- A partition gives entries when it has all operators and none of them fails. -/
theorem streamPartition_eq_ok_iff {index : Nat} {p : Partition} {out : List Entry} :
    store.streamPartition index p scanner = .ok out ↔
      (∀ s ∈ scanner.settings, p.runs s.id = true) ∧
        runOperators store.registry scanner.settings
          (p.rows.entries scanner.range scanner.mode) = .ok out := by
  rw [streamPartition]
  split
  · next missing hmissing =>
    have hmem := List.mem_of_find?_eq_some hmissing
    have hlacks := List.find?_some hmissing
    constructor
    · intro h
      cases h
    · intro h
      simp [h.1 missing hmem] at hlacks
  · next hnone =>
    have hall : ∀ s ∈ scanner.settings, p.runs s.id = true := by
      intro s hs
      simpa using List.find?_eq_none.1 hnone s hs
    dsimp only
    split <;> simp_all

/-- A partition that can run all operators fails only if one of them does. -/
theorem streamPartition_of_runs {p : Partition} (index : Nat)
    (h : ∀ s ∈ scanner.settings, p.runs s.id = true) :
    store.streamPartition index p scanner =
      (runOperators store.registry scanner.settings
        (p.rows.entries scanner.range scanner.mode)).mapError .operator := by
  have hnone : (scanner.settings.find? fun setting => !p.runs setting.id) = none :=
    List.find?_eq_none.2 fun s hs => by simp [h s hs]
  rw [streamPartition, hnone]
  dsimp only
  cases runOperators store.registry scanner.settings
    (p.rows.entries scanner.range scanner.mode) <;> rfl

/-- A partition that lacks operators names the first of them. -/
theorem streamPartition_of_lacks {p : Partition} (index : Nat)
    (h : ∃ s ∈ scanner.settings, p.runs s.id = false) :
    ∃ missing, (scanner.settings.find? fun setting => !p.runs setting.id) = some missing ∧
      store.streamPartition index p scanner = .error (.missingCapability missing.id index) := by
  obtain ⟨missing, hmissing⟩ : ∃ missing,
      (scanner.settings.find? fun setting => !p.runs setting.id) = some missing := by
    rw [← Option.isSome_iff_exists, List.find?_isSome]
    simpa using h
  exact ⟨missing, hmissing, by rw [streamPartition, hmissing]⟩

/-- What a scan makes of a partition, and nothing if it does not meet it. -/
def made (store : Store) (scanner : Scanner) (p : Partition) : List Entry :=
  if scanner.range.overlapsSpan p.low p.high then
    (runOperators store.registry scanner.settings
      (p.rows.entries scanner.range scanner.mode)).toOption.getD []
  else []

theorem made_of_not_overlaps {p : Partition}
    (h : scanner.range.overlapsSpan p.low p.high = false) : store.made scanner p = [] := by
  simp [made, h]

theorem streamPartition_eq_made {index : Nat} {p : Partition}
    (hoverlaps : scanner.range.overlapsSpan p.low p.high = true)
    (h : ∃ out, store.streamPartition index p scanner = .ok out) :
    store.streamPartition index p scanner = .ok (store.made scanner p) := by
  obtain ⟨out, hout⟩ := h
  have hrun := (streamPartition_eq_ok_iff.1 hout).2
  rw [hout, made, if_pos hoverlaps, hrun]
  rfl

/-- A scan is what it makes of the partitions if it fails on none that it meets. -/
theorem scan_eq_made (hrange : scanner.range.isEmpty = false)
    (h : ∀ index p, store.partitions[index]? = some p →
      scanner.range.overlapsSpan p.low p.high = true →
      ∃ out, store.streamPartition index p scanner = .ok out) :
    store.scan scanner = (store.partitions.flatMap (store.made scanner)).map .ok := by
  refine scan_eq_of_ok ?_ ?_
  · intro index p hp _ hoverlaps
    exact streamPartition_eq_made hoverlaps (h index p hp hoverlaps)
  · intro p _ hno
    exact made_of_not_overlaps (hno.resolve_left (by simp [hrange]))

/-- **A scan whose operators do not fail** on any partition returns what they make. -/
theorem exists_scan {good : Entry → Prop} (hrange : scanner.range.isEmpty = false)
    (hinstalled : ∀ p ∈ store.partitions, ∀ s ∈ scanner.settings, p.runs s.id = true)
    (hrun : ∀ p ∈ store.partitions, ∃ out,
      runOperators store.registry scanner.settings
        (p.rows.entries scanner.range scanner.mode) = .ok out ∧ ∀ e ∈ out, good e) :
    ∃ entries : List Entry, store.scan scanner = entries.map .ok ∧ ∀ e ∈ entries, good e := by
  refine ⟨store.partitions.flatMap (store.made scanner), scan_eq_made hrange ?_, fun e he => ?_⟩
  · intro index p hp _
    have hmem := List.mem_of_getElem? hp
    obtain ⟨out, hout, -⟩ := hrun p hmem
    exact ⟨out, streamPartition_eq_ok_iff.2 ⟨hinstalled p hmem, hout⟩⟩
  · obtain ⟨p, hp, he⟩ := List.mem_flatMap.1 he
    obtain ⟨out, hout, hgood⟩ := hrun p hp
    rw [made, hout] at he
    split at he
    · exact hgood e he
    · cases he

/-- A scan in which nothing failed made entries of every partition that it met. -/
theorem eq_made_of_scan_eq_ok {found : List Entry} (h : store.scan scanner = found.map .ok)
    (hrange : scanner.range.isEmpty = false) :
    found = store.partitions.flatMap (store.made scanner) ∧
      ∀ index p, store.partitions[index]? = some p →
        scanner.range.overlapsSpan p.low p.high = true →
        store.streamPartition index p scanner = .ok (store.made scanner p) := by
  have hmade : ∀ index p, store.partitions[index]? = some p →
      scanner.range.overlapsSpan p.low p.high = true →
      ∃ out, store.streamPartition index p scanner = .ok out := by
    intro index p hp hoverlaps
    exact streamPartition_of_scan_eq_ok h hrange hp hoverlaps
  have hscan := scan_eq_made hrange hmade
  rw [h] at hscan
  exact ⟨List.map_injective_iff.2 (fun a b hab => Except.ok.inj hab) hscan,
    fun index p hp hoverlaps => streamPartition_eq_made hoverlaps (hmade index p hp hoverlaps)⟩

/-- A scan visits partitions that exist, and only with a range in which rows can be searched. -/
theorem pending_openScan {index : Nat} (h : index ∈ (store.openScan scanner).pending) :
    index < store.partitions.length ∧ scanner.range.Searchable := by
  simp only [openScan] at h
  split at h
  · cases h
  · next hempty =>
    obtain ⟨i, p, rfl, hp, -⟩ := mem_meeting.1 h
    rw [Nat.zero_add]
    exact ⟨(List.getElem?_eq_some_iff.1 hp).1,
      KeyRange.searchable_of_isEmpty (by simpa using hempty)⟩

/-! ### Entries of partitions -/

/-- A partition that is not met has no entry in range. -/
theorem entries_of_not_meets {range : KeyRange} {p : Partition} {mode : ScanMode}
    (hspan : ∀ row ∈ p.rows, p.span.contains row.1 = true)
    (h : range.isEmpty = true ∨ range.overlapsSpan p.low p.high = false) :
    p.rows.entries range mode = [] := by
  have hnone : ∀ row ∈ p.rows, range.contains row.1 = false := by
    intro row hrow
    rcases h with hempty | hno
    · exact KeyRange.contains_of_isEmpty hempty row.1
    · by_contra hin
      have := KeyRange.overlapsSpan_of_contains (by simpa using hin) (hspan row hrow)
      simp [this] at hno
  rw [Rows.entries, List.filter_eq_nil_iff.2 fun row hrow => by simp [hnone row hrow]]
  rfl

theorem entries_contents (store : Store) (range : KeyRange) (mode : ScanMode) :
    store.contents.entries range mode =
      store.partitions.flatMap fun p => p.rows.entries range mode := by
  rw [contents]
  induction store.partitions with
  | nil => rfl
  | cons p rest ih => rw [List.flatMap_cons, Rows.entries_append, ih, List.flatMap_cons]

/-- **A scan without operators** returns the entries in range of all rows. -/
theorem Sound.scan_ofRange (h : store.Sound) (range : KeyRange) (mode : ScanMode) :
    store.scan (Scanner.ofRange range mode) =
      (store.contents.entries range mode).map .ok := by
  rw [entries_contents]
  refine scan_eq_of_ok (fun index p _ _ _ => rfl) ?_
  intro p hp hno
  exact entries_of_not_meets (h.placed.inSpan p hp) hno

end Store

end Strata
