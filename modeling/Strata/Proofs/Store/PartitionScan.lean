/-
**Scanning one partition after the other.**

The spans of a sound store lie apart, so a range that is cut to the span of one partition meets that
partition alone.  The scan of the cut range makes of the partition what a scan of the whole range
makes of it: the cut leaves out no key that the partition holds.

* `Tiles.pairwise_apart` — the spans lie apart;
* `KeyRange.overlapsSpan_clipped`, `KeyRange.not_apart_of_clipped` — which spans a cut range meets;
* `Store.meeting_clipped` — a cut range meets one partition;
* `Store.Sound.scan_clipped` — **a scan of one span is a visit of one partition**.
-/

import Strata.Proofs.Store.Narrow

set_option relaxedAutoImplicit false
set_option autoImplicit false

namespace Strata

/-! ### Spans that lie apart -/

/-- Of two spans one ends before the other begins. -/
def Partition.Apart (p q : Partition) : Prop := ∃ high ∈ p.high, ∃ low ∈ q.low, high ≤ low

/-- **The spans of partitions lie apart**, each before the later ones. -/
theorem Tiles.pairwise_apart {low : Option Bytes} {partitions : List Partition}
    (h : Tiles low (spansOf partitions)) : partitions.Pairwise Partition.Apart := by
  induction partitions generalizing low with
  | nil => exact List.Pairwise.nil
  | cons p rest ih =>
      obtain ⟨-, ⟨-, hnil⟩ | ⟨split, hhigh, -, hrest⟩⟩ := tiles_cons.1 h
      · obtain rfl : rest = [] := List.map_eq_nil_iff.1 hnil
        exact List.pairwise_singleton ..
      · refine List.pairwise_cons.2 ⟨?_, ih hrest⟩
        intro q hq
        obtain ⟨l, hl, hle⟩ := hrest.low_ge hq
        exact ⟨split, hhigh, l, hl, hle⟩

namespace KeyRange

variable {range clipped : KeyRange} {p q : Partition}

/-- The bounds of an intersection. -/
theorem eq_of_intersect {a b r : KeyRange} (h : a.intersect b = some r) :
    r = ⟨a.lower.tighterLower b.lower, a.upper.tighterUpper b.upper⟩ := by
  rw [intersect] at h
  split at h
  · cases h
  · exact (Option.some.inj h).symm

/-- A range that is cut to a span meets it. -/
theorem overlapsSpan_clipped (h : range.intersect p.span = some clipped) :
    clipped.overlapsSpan p.low p.high = true := by
  have hopen := isEmpty_of_intersect h
  rw [eq_of_intersect h] at hopen ⊢
  simp only [Partition.span, overlapsSpan, isSome_intersect, isEmpty_tighterLower,
    isEmpty_tighterUpper, Bool.or_eq_false_iff] at hopen ⊢
  tauto

/-- The upper bound of a span and the lower bound of a later one have crossed. -/
theorem isEmpty_of_apart (h : p.Apart q) : isEmpty ⟨q.span.lower, p.span.upper⟩ = true := by
  obtain ⟨high, hhigh, low, hlow, hle⟩ := h
  rw [Option.mem_def] at hhigh hlow
  simpa [Partition.span, halfOpen, hhigh, hlow, isEmpty] using hle

/-- A range that is cut to a span meets none that lies apart from it. -/
theorem not_apart_of_clipped (h : range.intersect p.span = some clipped)
    (hmeets : clipped.overlapsSpan q.low q.high = true) : ¬ p.Apart q ∧ ¬ q.Apart p := by
  have hopen : isEmpty ⟨q.span.lower, p.span.upper⟩ = false ∧
      isEmpty ⟨p.span.lower, q.span.upper⟩ = false := by
    rw [eq_of_intersect h] at hmeets
    simp only [Partition.span, overlapsSpan, isSome_intersect, isEmpty_tighterLower,
      isEmpty_tighterUpper, Bool.or_eq_false_iff] at hmeets ⊢
    tauto
  constructor
  · intro happart
    simp [isEmpty_of_apart happart] at hopen
  · intro happart
    simp [isEmpty_of_apart happart] at hopen

end KeyRange

/-! ### Visiting one partition -/

namespace Store

variable {store : Store} {scanner : Scanner} {range clipped : KeyRange}

theorem meeting_eq_nil {partitions : List Partition} {start : Nat}
    (h : ∀ q ∈ partitions, range.overlapsSpan q.low q.high = false) :
    meeting range start partitions = [] := by
  induction partitions generalizing start with
  | nil => rfl
  | cons q rest ih =>
      rw [List.forall_mem_cons] at h
      rw [meeting, h.1, if_neg Bool.false_ne_true, ih h.2]

/-- A range that is cut to the span of a partition meets no other. -/
theorem meeting_clipped {partitions : List Partition} {p : Partition} {start index : Nat}
    (happart : partitions.Pairwise Partition.Apart) (hp : partitions[index]? = some p)
    (hclipped : range.intersect p.span = some clipped) :
    meeting clipped start partitions = [start + index] := by
  induction partitions generalizing start index with
  | nil => cases hp
  | cons q rest ih =>
      obtain ⟨hq, hrest⟩ := List.pairwise_cons.1 happart
      rw [meeting]
      cases index with
      | zero =>
          obtain rfl : q = p := Option.some.inj hp
          have hnone : ∀ r ∈ rest, clipped.overlapsSpan r.low r.high = false := by
            intro r hr
            by_contra hmeets
            exact (KeyRange.not_apart_of_clipped hclipped (by simpa using hmeets)).1 (hq r hr)
          rw [if_pos (KeyRange.overlapsSpan_clipped hclipped), meeting_eq_nil hnone, Nat.add_zero]
      | succ index =>
          have hp : rest[index]? = some p := by simpa using hp
          have hbefore : clipped.overlapsSpan q.low q.high = false := by
            by_contra hmeets
            exact (KeyRange.not_apart_of_clipped hclipped (by simpa using hmeets)).2
              (hq p (List.mem_of_getElem? hp))
          rw [hbefore, if_neg Bool.false_ne_true, ih hrest hp, Nat.add_assoc, Nat.add_comm 1]

/-- Cutting a range to the span of a partition leaves out none of its entries. -/
theorem entries_clipped {p : Partition} (hspan : ∀ row ∈ p.rows, p.span.contains row.1 = true)
    (hclipped : range.intersect p.span = some clipped) (mode : ScanMode) :
    p.rows.entries clipped mode = p.rows.entries range mode := by
  rw [entries_narrow p.rows (KeyRange.contains_of_intersect hclipped), List.filter_eq_self]
  exact fun e he => contains_of_mem_entries hspan he

/-- **A scan of one span is a visit of one partition.** -/
theorem Sound.scan_clipped (h : store.Sound) {index : Nat} {p : Partition}
    (hp : store.partitions[index]? = some p)
    (hclipped : scanner.range.intersect p.span = some clipped) :
    store.scan (scanner.setRange clipped) =
      match store.streamPartition index p scanner with
      | .ok entries => entries.map .ok
      | .error e => [.error e] := by
  have hentries := entries_clipped (h.placed.inSpan p (List.mem_of_getElem? hp)) hclipped
    scanner.mode
  have hvisit : Stream.visit store (scanner.setRange clipped) index =
      store.streamPartition index p scanner := by
    rw [Stream.visit, hp]
    simp only [streamPartition, Scanner.setRange, hentries]
  have hpending : (store.openScan (scanner.setRange clipped)).pending = [index] := by
    simp only [openScan, Scanner.setRange, KeyRange.isEmpty_of_intersect hclipped,
      Bool.false_eq_true, if_false, meeting_clipped h.tiles.pairwise_apart hp hclipped,
      Nat.zero_add]
  rw [scan, Stream.drain, if_neg (by simp [openScan]), hpending]
  simp only [openScan, List.map_nil, List.nil_append, Stream.drainPending, hvisit]
  cases store.streamPartition index p scanner with
  | error e => rfl
  | ok entries => exact List.append_nil _

end Store

end Strata
