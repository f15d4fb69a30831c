/-
**What a store holds, partition by partition.**

The rows of all partitions together are one list of rows, sorted by key.  This is so because the
spans of the partitions tile the keys — the first begins before all keys, each ends where the next
begins, the last never ends — and every partition keeps to its span.  A write changes the one
partition whose span holds its key, which is the same as changing the one list.

* `Rows.Sorted` — strictly ascending keys, with what `Rows.update`, `Rows.erase` and `Rows.retain`
  do to a look-up;
* `Tiles` — spans that follow one another without gap or overlap, with `Tiles.existsUnique`;
* `modifyFor_split` — where a write goes;
* `Store.Sound` — **the invariant of every store that was only ever written to**, with
  `Store.Sound.ofLayout`, `Store.Sound.apply` and `Store.Sound.setRetention`;
* `Store.contents` — the one list of rows, with `contents_modifyRows`.
-/

import Strata.Proofs.Store.Rows
import Strata.Store.Basic

set_option relaxedAutoImplicit false
set_option autoImplicit false

namespace Strata

/-! ### Spans -/

/-- The keys of a partition's span. -/
def Partition.span (p : Partition) : KeyRange := KeyRange.halfOpen p.low p.high

/-- Spans that follow one another from a lower end on: each ends where the next begins, and the
last never ends. -/
inductive Tiles : Option Bytes → List (Option Bytes × Option Bytes) → Prop
  | last (low : Option Bytes) : Tiles low [(low, none)]
  | step {low : Option Bytes} {split : Bytes} {rest : List (Option Bytes × Option Bytes)}
      (hlow : ∀ l ∈ low, l < split) (hrest : Tiles (some split) rest) :
      Tiles low ((low, some split) :: rest)

/-- What the first of such spans is. -/
theorem tiles_cons {low l h : Option Bytes} {rest : List (Option Bytes × Option Bytes)} :
    Tiles low ((l, h) :: rest) ↔
      l = low ∧ (h = none ∧ rest = [] ∨
        ∃ split, h = some split ∧ (∀ a ∈ low, a < split) ∧ Tiles (some split) rest) := by
  constructor
  · rintro (_ | ⟨hlow, hrest⟩)
    · exact ⟨rfl, Or.inl ⟨rfl, rfl⟩⟩
    · exact ⟨rfl, Or.inr ⟨_, rfl, hlow, hrest⟩⟩
  · rintro ⟨rfl, ⟨rfl, rfl⟩ | ⟨split, rfl, hlow, hrest⟩⟩
    · exact Tiles.last _
    · exact Tiles.step hlow hrest

namespace Tiles

variable {low : Option Bytes} {bounds : List (Option Bytes × Option Bytes)} {key : Bytes}

/-- A key in any of the spans is not before their lower end. -/
theorem low_le (h : Tiles low bounds) {span : Option Bytes × Option Bytes} (hspan : span ∈ bounds)
    (hkey : (KeyRange.halfOpen span.1 span.2).contains key = true) : ∀ l ∈ low, l ≤ key := by
  induction h with
  | last low =>
      obtain rfl := List.mem_singleton.1 hspan
      exact ((KeyRange.contains_halfOpen _ _ _).1 hkey).1
  | step hlow hrest ih =>
      rcases List.mem_cons.1 hspan with rfl | hmem
      · exact ((KeyRange.contains_halfOpen _ _ _).1 hkey).1
      · intro l hl
        exact (hlow l hl).le.trans (ih hmem _ rfl)

/-- **Every key lies in exactly one of the spans.** -/
theorem existsUnique (h : Tiles low bounds) (hkey : ∀ l ∈ low, l ≤ key) :
    ∃! i : Nat, ∃ span, bounds[i]? = some span ∧
      (KeyRange.halfOpen span.1 span.2).contains key = true := by
  induction h with
  | last low =>
      refine ⟨0, ⟨(low, none), rfl, (KeyRange.contains_halfOpen _ _ _).2 ⟨hkey, by simp⟩⟩, ?_⟩
      rintro (_ | i) ⟨span, hspan, -⟩
      · rfl
      · simp at hspan
  | @step low split rest hlow hrest ih =>
      -- a key before the split is in the first span and in no later one, for those begin at it
      by_cases hsplit : key < split
      · refine ⟨0, ⟨(low, some split), rfl, ?_⟩, ?_⟩
        · exact (KeyRange.contains_halfOpen _ _ _).2 ⟨hkey, by simpa using hsplit⟩
        · rintro (_ | i) ⟨span, hspan, hcontains⟩
          · rfl
          · have hge := hrest.low_le (List.mem_of_getElem? hspan) hcontains split rfl
            order
      · have hge : split ≤ key := not_lt.1 hsplit
        obtain ⟨i, hi, hunique⟩ := ih (by simpa using hge)
        refine ⟨i + 1, hi, ?_⟩
        rintro (_ | j) ⟨span, hspan, hcontains⟩
        · obtain rfl : (low, some split) = span := by simpa using hspan
          exact absurd (((KeyRange.contains_halfOpen _ _ _).1 hcontains).2 split rfl) hsplit
        · exact congrArg _ (hunique j ⟨span, by simpa using hspan, hcontains⟩)

end Tiles

/-! The spans between sorted split points tile the keys. -/

theorem mem_insert_sortKeys {key k : Bytes} {keys : List Bytes} :
    k ∈ sortKeys.insert key keys ↔ k = key ∨ k ∈ keys := by
  induction keys with
  | nil => simp [sortKeys.insert]
  | cons first keys ih =>
      rw [sortKeys.insert]
      split
      · simp
      · split
        · next heq => simp [heq]
        · simp [ih, or_left_comm]

theorem sorted_insert_sortKeys {key : Bytes} {keys : List Bytes} (h : keys.Pairwise (· < ·)) :
    (sortKeys.insert key keys).Pairwise (· < ·) := by
  induction keys with
  | nil => exact List.pairwise_singleton ..
  | cons first keys ih =>
      obtain ⟨hfirst, hkeys⟩ := List.pairwise_cons.1 h
      rw [sortKeys.insert]
      split
      · next hlt =>
        refine List.pairwise_cons.2 ⟨?_, h⟩
        intro k hk
        rcases List.mem_cons.1 hk with rfl | hk
        · exact hlt
        · exact hlt.trans (hfirst k hk)
      · split
        · exact h
        · refine List.pairwise_cons.2 ⟨?_, ih hkeys⟩
          intro k hk
          rcases mem_insert_sortKeys.1 hk with rfl | hk
          · order
          · exact hfirst k hk

theorem sorted_sortKeys (keys : List Bytes) : (sortKeys keys).Pairwise (· < ·) := by
  induction keys with
  | nil => exact List.Pairwise.nil
  | cons key keys ih => exact sorted_insert_sortKeys ih

theorem tiles_spans (low : Option Bytes) {splits : List Bytes} (h : splits.Pairwise (· < ·))
    (hlow : ∀ l ∈ low, ∀ split ∈ splits, l < split) : Tiles low (spans low splits) := by
  induction splits generalizing low with
  | nil => exact Tiles.last low
  | cons split splits ih =>
      obtain ⟨hsplit, hsplits⟩ := List.pairwise_cons.1 h
      refine Tiles.step (fun l hl => hlow l hl split (List.mem_cons_self ..)) (ih _ hsplits ?_)
      simpa using hsplit

/-! ### Where a write goes -/

/-- The spans of partitions. -/
def spansOf (partitions : List Partition) : List (Option Bytes × Option Bytes) :=
  partitions.map fun p => (p.low, p.high)

/-- No partition begins before the lower end. -/
theorem Tiles.low_ge {low : Bytes} {partitions : List Partition}
    (h : Tiles (some low) (spansOf partitions)) {p : Partition} (hp : p ∈ partitions) :
    ∃ l ∈ p.low, low ≤ l := by
  induction partitions generalizing low with
  | nil => cases hp
  | cons first rest ih =>
      obtain ⟨hlow, hrest⟩ := tiles_cons.1 h
      rcases List.mem_cons.1 hp with rfl | hp
      · exact ⟨low, hlow, le_rfl⟩
      · obtain ⟨-, hnil⟩ | ⟨split, -, hsplit, hrest⟩ := hrest
        · simp [List.map_eq_nil_iff.1 hnil] at hp
        · obtain ⟨l, hl, hle⟩ := ih hrest hp
          exact ⟨l, hl, (hsplit low rfl).le.trans hle⟩

/-- A write goes to the partition whose span holds its key; the partitions before it end before the
key, and those behind it begin after it. -/
theorem modifyFor_split {low : Option Bytes} {partitions : List Partition} (key : Bytes)
    (h : Tiles low (spansOf partitions)) (hkey : ∀ l ∈ low, l ≤ key) :
    ∃ before p after, partitions = before ++ p :: after ∧
      p.span.contains key = true ∧
      (∀ q ∈ before, ∃ high ∈ q.high, high ≤ key) ∧
      (∀ q ∈ after, ∃ l ∈ q.low, key < l) ∧
      ∀ change, Store.modifyFor key change partitions = before ++ change p :: after := by
  induction partitions generalizing low with
  | nil => cases h
  | cons p rest ih =>
      obtain ⟨rfl, ⟨hhigh, hrest⟩ | ⟨split, hhigh, hlow, hrest⟩⟩ := tiles_cons.1 h
      · obtain rfl : rest = [] := List.map_eq_nil_iff.1 hrest
        refine ⟨[], p, [], rfl, ?_, by simp, by simp, fun _ => rfl⟩
        exact (KeyRange.contains_halfOpen _ _ _).2 ⟨hkey, by simp [hhigh]⟩
      · obtain ⟨q, rest, rfl⟩ : ∃ q qs, rest = q :: qs := by
          cases rest with
          | nil => cases hrest
          | cons q qs => exact ⟨q, qs, rfl⟩
        -- the search stops at the first partition that ends after the key
        have hends : p.endsAfter key = decide (key < split) := by
          simp [Partition.endsAfter, hhigh]
        by_cases hsplit : key < split
        · refine ⟨[], p, q :: rest, rfl, ?_, by simp, ?_, fun change => ?_⟩
          · exact (KeyRange.contains_halfOpen _ _ _).2 ⟨hkey, by simpa [hhigh] using hsplit⟩
          · exact fun r hr => (hrest.low_ge hr).imp fun l hl => ⟨hl.1, hsplit.trans_le hl.2⟩
          · simp [Store.modifyFor, hends, hsplit]
        · have hge : split ≤ key := not_lt.1 hsplit
          obtain ⟨before, r, after, hparts, hr, hbefore, hafter, hchange⟩ :=
            ih hrest (by simpa using hge)
          refine ⟨p :: before, r, after, congrArg _ hparts, hr, ?_, hafter, fun change => ?_⟩
          · rintro s (_ | ⟨_, hs⟩)
            · exact ⟨split, hhigh, hge⟩
            · exact hbefore s hs
          · simp [Store.modifyFor, hends, hsplit, hchange]

/-! ### The invariant -/

namespace VersionChain

/-- Cutting what was cut changes nothing. -/
theorem retain_retain (chain : VersionChain) (retention : Option Nat) :
    (chain.retain retention).retain retention = chain.retain retention := by
  cases retention with
  | none => rfl
  | some n => simp [retain, List.take_take]

/-- Timestamps fall from the newest version on, none is zero or later than the clock, and the chain
is cut already. -/
structure Sound (retention : Option Nat) (clock : Nat) (chain : VersionChain) : Prop where
  descending : chain.toList.Pairwise fun a b => b.timestamp < a.timestamp
  stamped : ∀ v ∈ chain.toList, 0 < v.timestamp ∧ v.timestamp ≤ clock
  retained : chain.retain retention = chain

namespace Sound

variable {retention : Option Nat} {clock : Nat} {chain : VersionChain}

theorem single (retention : Option Nat) (value : Bytes) (clock : Nat) :
    Sound retention (clock + 1) (VersionChain.single ⟨value, clock + 1⟩) where
  descending := List.pairwise_singleton ..
  stamped := by simp
  retained := by cases retention <;> simp [VersionChain.single, retain]

theorem retain (h : chain.Sound retention clock) (cut : Option Nat) :
    (chain.retain cut).Sound cut clock := by
  cases cut with
  | none => exact ⟨h.descending, h.stamped, rfl⟩
  | some n =>
      refine ⟨?_, ?_, retain_retain ..⟩
      · rw [toList_retain]
        exact h.descending.sublist (List.take_sublist ..)
      · rw [toList_retain]
        exact fun v hv => h.stamped v (List.mem_of_mem_take hv)

theorem later (h : chain.Sound retention clock) : chain.Sound retention (clock + 1) where
  descending := h.descending
  stamped v hv := ⟨(h.stamped v hv).1, Nat.le_succ_of_le (h.stamped v hv).2⟩
  retained := h.retained

theorem push (h : chain.Sound retention clock) (value : Bytes) :
    (chain.push ⟨value, clock + 1⟩ retention).Sound retention (clock + 1) := by
  let pushed : VersionChain := ⟨⟨value, clock + 1⟩, chain.toList⟩
  suffices hpushed : pushed.Sound none (clock + 1) from hpushed.retain retention
  refine ⟨?_, fun v hv => ?_, rfl⟩
  · exact List.pairwise_cons.2
      ⟨fun v hv => Nat.lt_succ_of_le (h.stamped v hv).2, h.descending⟩
  · rcases List.mem_cons.1 hv with rfl | hv
    · exact ⟨Nat.succ_pos _, le_rfl⟩
    · exact h.later.stamped v hv

end Sound

end VersionChain

/-- Every partition keeps to its span, with its rows sorted. -/
structure Placed (partitions : List Partition) : Prop where
  inSpan : ∀ p ∈ partitions, ∀ row ∈ p.rows, p.span.contains row.1 = true
  sorted : ∀ p ∈ partitions, p.rows.Sorted

/-- The span and the rows of a partition. -/
def Partition.held (p : Partition) : (Option Bytes × Option Bytes) × Rows :=
  ((p.low, p.high), p.rows)

/-- The rows of all partitions. -/
def Store.contents (store : Store) : Rows := store.partitions.flatMap Partition.rows

/-- **The invariant of a store**: the spans of its partitions tile the keys, every partition keeps
to its span, and the versions of every key are stamped by the clock and cut. -/
structure Store.Sound (store : Store) : Prop where
  tiles : Tiles none (spansOf store.partitions)
  placed : Placed store.partitions
  chains : ∀ row ∈ store.contents, row.2.Sound store.retention store.clock

theorem Placed.cons_iff {p : Partition} {partitions : List Partition} :
    Placed (p :: partitions) ↔
      ((∀ row ∈ p.rows, p.span.contains row.1 = true) ∧ p.rows.Sorted) ∧ Placed partitions := by
  constructor
  · rintro ⟨hspan, hsorted⟩
    rw [List.forall_mem_cons] at hspan hsorted
    exact ⟨⟨hspan.1, hsorted.1⟩, hspan.2, hsorted.2⟩
  · rintro ⟨⟨hspan, hsorted⟩, hrest⟩
    exact ⟨List.forall_mem_cons.2 ⟨hspan, hrest.inSpan⟩,
      List.forall_mem_cons.2 ⟨hsorted, hrest.sorted⟩⟩

/-- The rows of partitions that tile the keys are sorted as a whole. -/
theorem Placed.sorted_flatMap {low : Option Bytes} {partitions : List Partition}
    (h : Placed partitions) (htiles : Tiles low (spansOf partitions)) :
    Rows.Sorted (partitions.flatMap Partition.rows) := by
  induction partitions generalizing low with
  | nil => exact List.Pairwise.nil
  | cons p rest ih =>
      obtain ⟨⟨hspan, hsorted⟩, hrest⟩ := Placed.cons_iff.1 h
      rw [List.flatMap_cons]
      obtain ⟨-, ⟨-, hnil⟩ | ⟨split, hhigh, -, htail⟩⟩ := tiles_cons.1 htiles
      · obtain rfl : rest = [] := List.map_eq_nil_iff.1 hnil
        simpa using hsorted
      · refine List.pairwise_append.2 ⟨hsorted, ih hrest htail, ?_⟩
        intro a ha b hb
        obtain ⟨q, hq, hbq⟩ := List.mem_flatMap.1 hb
        obtain ⟨l, hl, hle⟩ := Tiles.low_ge htail hq
        have hlt := ((KeyRange.contains_halfOpen _ _ _).1 (hspan a ha)).2 split hhigh
        have hge := ((KeyRange.contains_halfOpen _ _ _).1 (hrest.inSpan q hq b hbq)).1 l hl
        exact hlt.trans_le (hle.trans hge)

namespace Store

variable {store : Store} {key : Bytes} {change : Rows → Rows}

theorem Sound.sorted_contents (h : store.Sound) : store.contents.Sorted :=
  h.placed.sorted_flatMap h.tiles

/-- **A change of one key in its partition changes the one list of rows.** -/
theorem contents_modifyRows (h : store.Sound) (hchange : Rows.ChangesOnly key change) :
    (store.modifyRows key change).contents = change store.contents := by
  obtain ⟨before, p, after, hparts, -, hbefore, hafter, hmodify⟩ :=
    modifyFor_split key h.tiles (by simp)
  have hspan := hparts ▸ h.placed.inSpan
  rw [hparts] at hmodify
  have hlow : ∀ row ∈ before.flatMap Partition.rows, row.1 < key := by
    intro row hrow
    obtain ⟨q, hq, hrow⟩ := List.mem_flatMap.1 hrow
    obtain ⟨high, hhigh, hle⟩ := hbefore q hq
    have hin := (KeyRange.contains_halfOpen _ _ _).1 (hspan q (by simp [hq]) row hrow)
    exact (hin.2 high hhigh).trans_le hle
  have hhigh : ∀ row ∈ after.flatMap Partition.rows, key < row.1 := by
    intro row hrow
    obtain ⟨q, hq, hrow⟩ := List.mem_flatMap.1 hrow
    obtain ⟨l, hl, hlt⟩ := hafter q hq
    have hin := (KeyRange.contains_halfOpen _ _ _).1 (hspan q (by simp [hq]) row hrow)
    exact hlt.trans_le (hin.1 l hl)
  -- the rows before have lesser keys and those behind greater ones, so the change passes them by
  simp only [contents, modifyRows, hparts, hmodify, List.flatMap_append, List.flatMap_cons]
  rw [hchange.append_right hlow, hchange.append_left hhigh]

/-- A change of one key leaves every row in its span. -/
theorem placed_modifyRows (h : store.Sound) (hchange : Rows.ChangesOnly key change) :
    Placed (store.modifyRows key change).partitions ∧
      spansOf (store.modifyRows key change).partitions = spansOf store.partitions := by
  obtain ⟨before, p, after, hparts, hkey, -, -, hmodify⟩ :=
    modifyFor_split key h.tiles (by simp)
  have hspan := hparts ▸ h.placed.inSpan
  have hsorted := hparts ▸ h.placed.sorted
  rw [hparts] at hmodify
  simp only [modifyRows, hparts, hmodify]
  refine ⟨⟨fun q hq row hrow => ?_, fun q hq => ?_⟩, by simp [spansOf]⟩
  · rcases List.mem_append.1 hq with hq | hq
    · exact hspan q (by simp [hq]) row hrow
    rcases List.mem_cons.1 hq with rfl | hq
    · rcases hchange.mem hrow with heq | hmem
      · exact heq ▸ hkey
      · exact hspan p (by simp) row hmem
    · exact hspan q (by simp [hq]) row hrow
  · rcases List.mem_append.1 hq with hq | hq
    · exact hsorted q (by simp [hq])
    rcases List.mem_cons.1 hq with rfl | hq
    · exact hchange.sorted (hsorted p (by simp))
    · exact hsorted q (by simp [hq])

theorem contents_setRetention (retention : Option Nat) :
    (store.setRetention retention).contents = store.contents.retain retention := by
  simp [contents, setRetention, Rows.retain, List.flatMap_map, List.map_flatMap]

/-! Every store that was only ever written to is sound. -/

theorem Sound.ofLayout (layout : StoreLayout) (registry : Registry) :
    (ofLayout layout registry).Sound where
  tiles := by
    have htiles := tiles_spans none (sorted_sortKeys layout.splits) (by simp)
    simpa [Store.ofLayout, spansOf, Function.comp_def] using htiles
  placed := by
    constructor <;> simp only [Store.ofLayout, List.mem_map] <;> rintro _ ⟨span, -, rfl⟩
    · simp
    · exact List.Pairwise.nil
  chains := by simp [contents, Store.ofLayout, List.flatMap_map]

/-- A change of one key keeps a store sound if it keeps its versions so. -/
theorem Sound.modifyRows (h : store.Sound) (hchange : Rows.ChangesOnly key change) (clock : Nat)
    (hchains : ∀ row ∈ change store.contents, row.2.Sound store.retention clock) :
    Sound { store.modifyRows key change with clock := clock } := by
  obtain ⟨hplaced, hspans⟩ := placed_modifyRows h hchange
  refine ⟨?_, hplaced, ?_⟩
  · show Tiles none (spansOf (store.modifyRows key change).partitions)
    rw [hspans]
    exact h.tiles
  · show ∀ row ∈ (store.modifyRows key change).contents, row.2.Sound store.retention clock
    rw [contents_modifyRows h hchange]
    exact hchains

theorem Sound.apply (h : store.Sound) (m : Mutation) : (store.apply m).Sound := by
  cases m with
  | put key value =>
      refine h.modifyRows (Rows.changesOnly_update ..) _ ?_
      intro row hrow
      rcases Rows.mem_update hrow with ⟨chain, rfl, hchain⟩ | hmem
      · cases chain with
        | none => exact VersionChain.Sound.single ..
        | some chain => exact (h.chains _ (hchain chain rfl)).push ..
      · exact (h.chains row hmem).later
  | delete key =>
      exact h.modifyRows (Rows.changesOnly_erase key) store.clock fun row hrow =>
        h.chains row (Rows.mem_of_mem_erase hrow)

theorem Sound.foldl_apply (h : store.Sound) (batch : List Mutation) :
    (batch.foldl Store.apply store).Sound := by
  induction batch generalizing store with
  | nil => exact h
  | cons m batch ih => exact ih (h.apply m)

theorem Sound.setRetention (h : store.Sound) (retention : Option Nat) :
    (store.setRetention retention).Sound where
  tiles := by simpa [Store.setRetention, spansOf, Function.comp_def] using h.tiles
  placed := by
    constructor <;> simp only [Store.setRetention, List.mem_map] <;> rintro _ ⟨p, hp, rfl⟩
    · intro row hrow
      obtain ⟨old, hold, rfl⟩ := List.mem_map.1 hrow
      exact h.placed.inSpan p hp old hold
    · exact (h.placed.sorted p hp).retain retention
  chains := by
    rw [contents_setRetention]
    intro row hrow
    obtain ⟨old, hold, rfl⟩ := List.mem_map.1 hrow
    exact (h.chains old hold).retain retention

/-! What a partition can run has no part in what it holds. -/

theorem map_modify_held {index : Nat} {change : Partition → Partition} {partitions : List Partition}
    (hchange : ∀ p, (change p).held = p.held) :
    (partitions.modify index change).map Partition.held = partitions.map Partition.held := by
  refine List.ext_getElem? ?_
  intro i
  rw [List.getElem?_map, List.getElem?_map, List.getElem?_modify]
  cases partitions[i]? with
  | none => rfl
  | some p => by_cases hi : index = i <;> simp [hi, hchange]

/-- A store whose partitions hold the same is as sound. -/
theorem Sound.of_held (h : store.Sound) {partitions : List Partition}
    (hheld : partitions.map Partition.held = store.partitions.map Partition.held) :
    Sound { store with partitions := partitions } ∧
      contents { store with partitions := partitions } = store.contents := by
  have hcontents : contents { store with partitions := partitions } = store.contents := by
    have := congrArg (List.flatMap fun held => held.2) hheld
    simpa [contents, List.flatMap_map, Partition.held] using this
  have hspans : spansOf partitions = spansOf store.partitions := by
    have := congrArg (List.map Prod.fst) hheld
    simpa [spansOf, Function.comp_def, Partition.held] using this
  have hmem : ∀ p ∈ partitions, ∃ q ∈ store.partitions, q.held = p.held := fun p hp =>
    List.mem_map.1 (hheld ▸ List.mem_map_of_mem hp)
  refine ⟨⟨?_, ⟨fun p hp row hrow => ?_, fun p hp => ?_⟩, ?_⟩, hcontents⟩
  · show Tiles none (spansOf partitions)
    rw [hspans]
    exact h.tiles
  · obtain ⟨q, hq, heq⟩ := hmem p hp
    simp only [Partition.held, Prod.mk.injEq] at heq
    have := h.placed.inSpan q hq row (heq.2 ▸ hrow)
    rwa [Partition.span, heq.1.1, heq.1.2] at this
  · obtain ⟨q, hq, heq⟩ := hmem p hp
    have hrows : q.rows = p.rows := congrArg Prod.snd heq
    rw [← hrows]
    exact h.placed.sorted q hq
  · rw [hcontents]
    exact h.chains

theorem held_withoutOperator (p : Partition) (id : String) : (p.withoutOperator id).held = p.held :=
  rfl

theorem held_withOperator (p : Partition) (id : String) : (p.withOperator id).held = p.held := by
  rw [Partition.withOperator]
  split <;> rfl

end Store

end Strata
