/-
**An operator on top of a scan.**

A scan runs its operators on every partition for itself, so with one more operator on top it returns
what that operator makes of the entries below, span by span.  This puts the operator where its range
cannot reach it: entries are left out of what it gets, not of what it returns.

* `perSpan` — what an operator makes of entries, span by span;
* `filter_flatMap_span`, `perSpan_eq_ok_iff` — entries that keep to their spans can be told apart;
* `Store.Sound.scan_stack`, `Store.scan_stack_filter` — **a scan with an operator on top**, and with
  one that keeps entries one by one.
-/

import Strata.Proofs.Store.PartitionScan

set_option relaxedAutoImplicit false
set_option autoImplicit false

namespace Strata

/-- What an operator makes of entries, span by span. -/
def perSpan (operator : Operator) (entries : List Entry) :
    List (Option Bytes × Option Bytes) → Except OperatorError (List Entry)
  | [] => .ok []
  | span :: spans => do
    let left ← operator
      (entries.filter fun e => (KeyRange.halfOpen span.1 span.2).contains e.key)
    let rest ← perSpan operator entries spans
    return left ++ rest

/-! ### Entries that keep to their spans -/

section Spans

variable {partitions : List Partition} {out : Partition → List Entry}

/-- A key lies in one of two spans that lie apart. -/
theorem Partition.Apart.contains_left {p q : Partition} (h : p.Apart q) {key : Bytes}
    (hkey : p.span.contains key = true) : q.span.contains key = false := by
  obtain ⟨high, hhigh, low, hlow, hle⟩ := h
  rw [Bool.eq_false_iff]
  intro hin
  have hlt := ((KeyRange.contains_halfOpen _ _ _).1 hkey).2 high hhigh
  have hge := ((KeyRange.contains_halfOpen _ _ _).1 hin).1 low hlow
  exact absurd (hlt.trans_le (hle.trans hge)) (lt_irrefl key)

theorem Partition.Apart.contains_right {p q : Partition} (h : p.Apart q) {key : Bytes}
    (hkey : q.span.contains key = true) : p.span.contains key = false := by
  rw [Bool.eq_false_iff]
  intro hin
  rw [h.contains_left hin] at hkey
  cases hkey

/-- **The entries of one span among all** are those of its partition. -/
theorem filter_flatMap_span (happart : partitions.Pairwise Partition.Apart)
    (hspan : ∀ p ∈ partitions, ∀ e ∈ out p, p.span.contains e.key = true) {p : Partition}
    (hp : p ∈ partitions) :
    ((partitions.flatMap out).filter fun e => p.span.contains e.key) = out p := by
  obtain ⟨before, after, rfl⟩ := List.append_of_mem hp
  obtain ⟨-, hafter, hbefore⟩ := List.pairwise_append.1 happart
  have hnone : ∀ rest : List Partition, (∀ q ∈ rest, q ∈ before ++ p :: after) →
      (∀ q ∈ rest, ∀ key, q.span.contains key = true → p.span.contains key = false) →
      ((rest.flatMap out).filter fun e => p.span.contains e.key) = [] := by
    intro rest hsub hother
    refine List.filter_eq_nil_iff.2 ?_
    intro e he
    obtain ⟨q, hq, he⟩ := List.mem_flatMap.1 he
    simp [hother q hq e.key (hspan q (hsub q hq) e he)]
  rw [List.flatMap_append, List.flatMap_cons, List.filter_append, List.filter_append,
    hnone before, hnone after, List.filter_eq_self.2 (hspan p hp), List.nil_append, List.append_nil]
  · exact fun q hq => List.mem_append_right _ (List.mem_cons_of_mem p hq)
  · exact fun q hq key => ((List.pairwise_cons.1 hafter).1 q hq).contains_right
  · exact fun q hq => List.mem_append_left _ hq
  · exact fun q hq key => (hbefore q hq p (List.mem_cons_self ..)).contains_left

/-- What an operator makes span by span is put together from what it makes of every partition. -/
theorem perSpan_eq_ok_iff {operator : Operator} {entries found : List Entry}
    (h : ∀ p ∈ partitions, (entries.filter fun e => p.span.contains e.key) = out p) :
    perSpan operator entries (spansOf partitions) = .ok found ↔
      ∃ made : Partition → List Entry, (∀ p ∈ partitions, operator (out p) = .ok (made p)) ∧
        found = partitions.flatMap made := by
  induction partitions generalizing found with
  | nil =>
      constructor
      · intro hfound
        exact ⟨fun _ => [], by simp, (Except.ok.inj hfound).symm⟩
      · rintro ⟨made, -, rfl⟩
        rfl
  | cons p rest ih =>
      rw [List.forall_mem_cons] at h
      have hcons : perSpan operator entries (spansOf (p :: rest)) =
          (operator (out p)).bind fun left =>
            (perSpan operator entries (spansOf rest)).bind fun others => .ok (left ++ others) := by
        rw [← h.1]
        rfl
      rw [hcons]
      constructor
      · intro hfound
        obtain ⟨left, hleft, hfound⟩ := bind_eq_ok.1 hfound
        obtain ⟨others, hothers, hfound⟩ := bind_eq_ok.1 hfound
        obtain ⟨made, hmade, rfl⟩ := (ih h.2).1 hothers
        -- what the operator makes of a partition is a matter of what it gets of it
        refine ⟨fun q => (operator (out q)).toOption.getD [], ?_, ?_⟩
        · intro q hq
          rcases List.mem_cons.1 hq with rfl | hq
          · simp [hleft, Except.toOption]
          · simp [hmade q hq, Except.toOption]
        · have hrest : rest.flatMap made =
              rest.flatMap fun q => (operator (out q)).toOption.getD [] := by
            refine List.flatMap_congr ?_
            intro q hq
            simp [hmade q hq, Except.toOption]
          rw [← Except.ok.inj hfound, hrest, List.flatMap_cons, hleft]
          rfl
      · rintro ⟨made, hmade, rfl⟩
        rw [List.forall_mem_cons] at hmade
        rw [hmade.1, (ih h.2).2 ⟨made, hmade.2, rfl⟩]
        rfl

end Spans

/-! ### Scans -/

/-- The scanner with one more operator on top. -/
def Scanner.stack (s : Scanner) (setting : Setting) : Scanner :=
  { s with settings := s.settings ++ [setting] }

namespace Store

variable {store : Store} {below : Scanner} {setting : Setting} {operator : Operator}

/-- An operator on top of a pile gets what the pile makes. -/
theorem runOperators_stack_eq_ok {entries made : List Entry}
    (hbuild : store.registry.build setting = .ok operator) :
    runOperators store.registry (below.stack setting).settings entries = .ok made ↔
      ∃ left, runOperators store.registry below.settings entries = .ok left ∧
        operator left = .ok made := by
  rw [Scanner.stack, runOperators_append, bind_eq_ok]
  refine exists_congr fun left => and_congr_right fun _ => ?_
  rw [runOperators, hbuild]
  dsimp only
  cases operator left with
  | error e => exact Iff.rfl
  | ok left => exact Iff.rfl

/-- What a pile of operators makes of a partition keeps to its span. -/
theorem Sound.contains_of_made (h : store.Sound)
    (hkeys : KeepsKeys (runOperators store.registry below.settings)) :
    ∀ p ∈ store.partitions, ∀ e ∈ store.made below p, p.span.contains e.key = true := by
  intro p hp e he
  rw [made] at he
  split at he
  · cases hrun : runOperators store.registry below.settings
      (p.rows.entries below.range below.mode) with
    | error fault => simp [hrun, Except.toOption] at he
    | ok out =>
        simp only [hrun, Except.toOption, Option.getD_some] at he
        have hasc := ascending_entries (h.placed.sorted p hp) below.range below.mode
        obtain ⟨x, hx, heq⟩ := (hkeys hasc hrun).2 e he
        rw [← heq]
        exact contains_of_mem_entries (h.placed.inSpan p hp) hx
  · cases he

/-- **A scan with an operator on top** returns what the operator makes, span by span, of what a scan
without it returns. -/
theorem Sound.scan_stack (h : store.Sound) (hrange : below.range.isEmpty = false)
    (hbuild : store.registry.build setting = .ok operator) (hnil : operator [] = .ok [])
    (hkeys : KeepsKeys (runOperators store.registry below.settings)) {found : List Entry} :
    store.scan (below.stack setting) = found.map .ok ↔
      (∀ p ∈ store.partitions, below.range.overlapsSpan p.low p.high = true →
        p.runs setting.id = true) ∧
      ∃ shown : List Entry, store.scan below = shown.map .ok ∧
        perSpan operator shown store.bounds = .ok found := by
  have hparts : ∀ p ∈ store.partitions,
      ((store.partitions.flatMap (store.made below)).filter fun e => p.span.contains e.key) =
        store.made below p :=
    fun p hp => filter_flatMap_span h.tiles.pairwise_apart (h.contains_of_made hkeys) hp
  constructor
  · intro hscan
    obtain ⟨rfl, hmade⟩ := eq_made_of_scan_eq_ok hscan hrange
    have hbelow : ∀ index p, store.partitions[index]? = some p →
        below.range.overlapsSpan p.low p.high = true →
        p.runs setting.id = true ∧
          store.streamPartition index p below = .ok (store.made below p) ∧
          operator (store.made below p) = .ok (store.made (below.stack setting) p) := by
      intro index p hp hmeets
      obtain ⟨hruns, hrun⟩ := streamPartition_eq_ok_iff.1 (hmade index p hp hmeets)
      obtain ⟨left, hleft, htop⟩ := (runOperators_stack_eq_ok hbuild).1 hrun
      have hvisit : store.streamPartition index p below = .ok left :=
        streamPartition_eq_ok_iff.2
          ⟨fun s hs => hruns s (List.mem_append_left _ hs), hleft⟩
      have heq := streamPartition_eq_made hmeets ⟨left, hvisit⟩
      obtain rfl : left = store.made below p := Except.ok.inj (hvisit.symm.trans heq)
      exact ⟨hruns setting (List.mem_append_right _ (List.mem_singleton_self setting)), heq, htop⟩
    refine ⟨?_, store.partitions.flatMap (store.made below), ?_, ?_⟩
    · intro p hp hmeets
      obtain ⟨index, hindex⟩ := List.mem_iff_getElem?.1 hp
      exact (hbelow index p hindex hmeets).1
    · refine scan_eq_made hrange ?_
      intro index p hp hmeets
      exact ⟨_, (hbelow index p hp hmeets).2.1⟩
    · refine (perSpan_eq_ok_iff hparts).2 ⟨store.made (below.stack setting), ?_, rfl⟩
      intro p hp
      by_cases hmeets : below.range.overlapsSpan p.low p.high = true
      · obtain ⟨index, hindex⟩ := List.mem_iff_getElem?.1 hp
        exact (hbelow index p hindex hmeets).2.2
      · rw [made_of_not_overlaps (by simpa using hmeets),
          made_of_not_overlaps (by simpa [Scanner.stack] using hmeets), hnil]
  · rintro ⟨hruns, shown, hshown, hfound⟩
    obtain ⟨rfl, hmade⟩ := eq_made_of_scan_eq_ok hshown hrange
    obtain ⟨above, habove, rfl⟩ := (perSpan_eq_ok_iff hparts).1 hfound
    refine scan_eq_of_ok ?_ ?_
    · intro index p hp _ hmeets
      obtain ⟨hbelow, hrun⟩ := streamPartition_eq_ok_iff.1 (hmade index p hp hmeets)
      have hmem := List.mem_of_getElem? hp
      refine streamPartition_eq_ok_iff.2 ⟨?_, ?_⟩
      · intro s hs
        rcases List.mem_append.1 hs with hs | hs
        · exact hbelow s hs
        · obtain rfl := List.mem_singleton.1 hs
          exact hruns p hmem hmeets
      · exact (runOperators_stack_eq_ok hbuild).2 ⟨_, hrun, habove p hmem⟩
    · intro p hp hno
      have hno : below.range.overlapsSpan p.low p.high = false :=
        hno.resolve_left (by simp [Scanner.stack, hrange])
      have hnone := habove p hp
      rw [made_of_not_overlaps hno, hnil] at hnone
      exact (Except.ok.inj hnone).symm

/-- **A scan with a filter on top** returns what the filter keeps of what a scan without it
returns, unless a partition that it meets lacks the filter. -/
theorem scan_stack_filter {keep : Entry → Bool} (hrange : below.range.isEmpty = false)
    (hbuild : store.registry.build setting = .ok fun entries => .ok (entries.filter keep))
    {shown : List Entry} (hshown : store.scan below = shown.map .ok) {found : List Entry} :
    store.scan (below.stack setting) = found.map .ok ↔
      (∀ p ∈ store.partitions, below.range.overlapsSpan p.low p.high = true →
        p.runs setting.id = true) ∧ found = shown.filter keep := by
  obtain ⟨rfl, hmade⟩ := eq_made_of_scan_eq_ok hshown hrange
  have hfilter (hruns : ∀ p ∈ store.partitions, below.range.overlapsSpan p.low p.high = true →
      p.runs setting.id = true) : store.scan (below.stack setting) =
        ((store.partitions.flatMap (store.made below)).filter keep).map .ok := by
    rw [List.filter_flatMap]
    refine scan_eq_of_ok ?_ ?_
    · intro index p hp _ hmeets
      obtain ⟨hbelow, hrun⟩ := streamPartition_eq_ok_iff.1 (hmade index p hp hmeets)
      refine streamPartition_eq_ok_iff.2 ⟨?_, ?_⟩
      · intro s hs
        rcases List.mem_append.1 hs with hs | hs
        · exact hbelow s hs
        · obtain rfl := List.mem_singleton.1 hs
          exact hruns p (List.mem_of_getElem? hp) hmeets
      · exact (runOperators_stack_eq_ok hbuild).2 ⟨_, hrun, rfl⟩
    · intro p _ hno
      have hno : below.range.overlapsSpan p.low p.high = false :=
        hno.resolve_left (by simp [Scanner.stack, hrange])
      rw [made_of_not_overlaps hno, List.filter_nil]
  constructor
  · intro hscan
    have hruns : ∀ p ∈ store.partitions, below.range.overlapsSpan p.low p.high = true →
        p.runs setting.id = true := by
      intro p hp hmeets
      obtain ⟨index, hindex⟩ := List.mem_iff_getElem?.1 hp
      obtain ⟨out, hout⟩ := streamPartition_of_scan_eq_ok hscan hrange hindex hmeets
      exact (streamPartition_eq_ok_iff.1 hout).1 setting
        (List.mem_append_right _ (List.mem_singleton_self setting))
    exact ⟨hruns, map_ok_injective (hscan.symm.trans (hfilter hruns))⟩
  · rintro ⟨hruns, rfl⟩
    exact hfilter hruns

end Store

end Strata
