/-
**Operators that look at one key at a time.**

An operator is local to keys when what it makes of some of the keys does not depend on the others:
leaving out keys before it runs is leaving them out of what it returns.  All operators but the
aggregates are of this kind.  Each goes through pieces of the stream — single entries, or the rows
of all versions of a key — and what it makes of a piece, if anything, has the key of that piece.
Rows are whole keys because a stream is in ascending order of its keys, and every operator keeps
that order.

* `Ascending` — streams in order;
* `pick`, `pick_filter`, `pick_sublist` — going through pieces;
* `rows_filter` — leaving out keys leaves out whole rows;
* `KeepsKeys`, `KeyLocal.keepsKeys` — operators that make up no keys;
* `KeyLocal` — **the property**, with `keyLocal_sampling`, `keyLocal_patternFilter`,
  `keyLocal_keyCopy` and `keyLocal_rowSummary`.
-/

import Strata.Operator.Registry
import Strata.Proofs.Bytes
import Strata.Store.Stream

set_option relaxedAutoImplicit false
set_option autoImplicit false

namespace Strata

/-! ### Results -/

theorem bind_eq_ok {ε α β : Type} {x : Except ε α} {f : α → Except ε β} {b : β} :
    x.bind f = .ok b ↔ ∃ a, x = .ok a ∧ f a = .ok b := by
  cases x <;> simp [Except.bind]

theorem mapError_eq_ok {ε ε' α : Type} {x : Except ε α} {f : ε → ε'} {a : α} :
    x.mapError f = .ok a ↔ x = .ok a := by
  cases x <;> simp [Except.mapError]

theorem map_eq_ok {ε α β : Type} {x : Except ε α} {f : α → β} {b : β} :
    x.map f = .ok b ↔ ∃ a, x = .ok a ∧ b = f a := by
  cases x <;> simp [Except.map, eq_comm]

theorem map_ok_injective {ε α : Type} :
    Function.Injective (List.map (Except.ok : α → Except ε α)) :=
  List.map_injective_iff.2 fun _ _ => Except.ok.inj

theorem OperatorError.ofCodec_eq_ok {α : Type} {found : Except CodecError α} {a : α} :
    OperatorError.ofCodec found = .ok a ↔ found = .ok a := by
  cases found <;> simp [OperatorError.ofCodec]

/-! ### Going through pieces -/

section Pick

variable {α β κ ε : Type} {f : α → Except ε (Option β)} {xs : List α} {out : List β}

/-- What is made of the pieces of a list, of each one thing or none, up to the first fault. -/
def pick (f : α → Except ε (Option β)) (xs : List α) : Except ε (List β) :=
  (xs.mapM f).map fun found => found.filterMap id

@[simp] theorem pick_nil : pick f [] = .ok [] := rfl

theorem pick_cons (x : α) (xs : List α) :
    pick f (x :: xs) = (f x).bind fun y => (pick f xs).map (y.toList ++ ·) := by
  rw [pick, pick, List.mapM_cons]
  cases f x with
  | error e => rfl
  | ok y =>
      cases xs.mapM f with
      | error e => rfl
      | ok found => cases y <;> rfl

theorem pick_cons_eq_ok {x : α} (h : pick f (x :: xs) = .ok out) :
    ∃ y rest, f x = .ok y ∧ pick f xs = .ok rest ∧ out = y.toList ++ rest := by
  rw [pick_cons] at h
  cases hx : f x with
  | error e => simp [hx, Except.bind] at h
  | ok y =>
      cases hxs : pick f xs with
      | error e => simp [hx, hxs, Except.bind, Except.map] at h
      | ok rest =>
          simp only [hx, hxs, Except.bind, Except.map, Except.ok.injEq] at h
          exact ⟨y, rest, rfl, rfl, h.symm⟩

/-- **Leaving out pieces is leaving out what is made of them.** -/
theorem pick_filter {keep : α → Bool} {kept : β → Bool}
    (hkeep : ∀ x y, f x = .ok (some y) → kept y = keep x) (h : pick f xs = .ok out) :
    pick f (xs.filter keep) = .ok (out.filter kept) := by
  induction xs generalizing out with
  | nil =>
      obtain rfl : [] = out := Except.ok.inj h
      rfl
  | cons x xs ih =>
      obtain ⟨y, rest, hx, hxs, rfl⟩ := pick_cons_eq_ok h
      have hrest := ih hxs
      -- the piece is kept together with what is made of it, or both are left out
      have hone : y.toList.filter kept = if keep x then y.toList else [] := by
        cases y with
        | none => simp
        | some y => simp [List.filter_cons, hkeep x y hx]
      rw [List.filter_cons, List.filter_append, hone]
      split
      · rw [pick_cons, hx, hrest]
        rfl
      · rw [hrest, List.nil_append]

/-- What is made keeps the order of the pieces. -/
theorem pick_sublist {key : α → Option κ} {made : β → κ}
    (hkey : ∀ x y, f x = .ok (some y) → key x = some (made y)) (h : pick f xs = .ok out) :
    (out.map made).Sublist (xs.filterMap key) := by
  induction xs generalizing out with
  | nil =>
      obtain rfl : [] = out := Except.ok.inj h
      exact .slnil
  | cons x xs ih =>
      obtain ⟨y, rest, hx, hxs, rfl⟩ := pick_cons_eq_ok h
      have hrest := ih hxs
      cases y with
      | none =>
          refine hrest.trans ?_
          rw [List.filterMap_cons]
          split
          · exact .refl _
          · exact List.sublist_cons_self _ _
      | some y =>
          rw [List.filterMap_cons, hkey x y hx]
          exact hrest.cons_cons _

end Pick

/-! ### Streams in order -/

/-- The keys ascend; entries of one key stand together. -/
def Ascending (entries : List Entry) : Prop := (entries.map (·.key)).Pairwise (· ≤ ·)

variable {entries rest out : List Entry} {e : Entry}

theorem ascending_nil : Ascending [] := .nil

theorem ascending_cons :
    Ascending (e :: rest) ↔ (∀ x ∈ rest, e.key ≤ x.key) ∧ Ascending rest := by
  simp [Ascending, List.pairwise_cons]

theorem Ascending.of_sublist (h : Ascending entries)
    (hout : (out.map (·.key)).Sublist (entries.map (·.key))) : Ascending out :=
  h.sublist hout

/-! ### Rows -/

/-- Rows are not empty, and together they are all entries. -/
theorem rows_spec (entries : List Entry) :
    (∀ row ∈ rows entries, row ≠ []) ∧ (rows entries).flatten = entries := by
  induction entries with
  | nil => simp
  | cons e rest ih =>
      obtain ⟨hne, hflat⟩ := ih
      rw [rows]
      split
      · next next row others hrows =>
        rw [hrows] at hflat hne
        split <;> simp_all
      · next others hother =>
        cases hrows : rows rest with
        | nil => simp_all
        | cons row others =>
            cases row with
            | nil => simp [hrows] at hne
            | cons next row => exact absurd hrows (hother next row others)

/-- An entry whose key does not come again is a row of its own. -/
theorem rows_cons_of_ne (h : ∀ x ∈ rest, x.key ≠ e.key) : rows (e :: rest) = [e] :: rows rest := by
  rw [rows]
  split
  · next next row others hrows =>
    have hmem : next ∈ rest := by
      rw [← (rows_spec rest).2, hrows]
      simp
    rw [if_neg (h next hmem), hrows]
  · rfl

/-- The first entry begins the first row. -/
theorem exists_rows_cons (e : Entry) (rest : List Entry) :
    ∃ row others, rows (e :: rest) = (e :: row) :: others := by
  rw [rows]
  split
  · split <;> exact ⟨_, _, rfl⟩
  · exact ⟨_, _, rfl⟩

/-- Whether an entry joins the row behind it is seen from the first entry of that row. -/
theorem rows_cons_of_rows {next : Entry} {row : List Entry} {others : List (List Entry)}
    (h : rows rest = (next :: row) :: others) :
    rows (e :: rest) =
      if next.key = e.key then (e :: next :: row) :: others
      else [e] :: (next :: row) :: others := by
  rw [rows, h]

/-- An entry before one of its key joins the row of that. -/
theorem rows_cons_cons {x : Entry} (h : x.key = e.key) (rest : List Entry) :
    ∃ row others, rows (x :: rest) = (x :: row) :: others ∧
      rows (e :: x :: rest) = (e :: x :: row) :: others := by
  obtain ⟨row, others, hrows⟩ := exists_rows_cons x rest
  exact ⟨row, others, hrows, by rw [rows_cons_of_rows hrows, if_pos h]⟩

/-- A key that comes again comes next. -/
theorem next_of_key_again (hle : ∀ x ∈ rest, e.key ≤ x.key) (hrest : Ascending rest)
    (hagain : ¬ ∀ y ∈ rest, y.key ≠ e.key) : ∃ x xs, rest = x :: xs ∧ x.key = e.key := by
  cases rest with
  | nil => simp at hagain
  | cons x xs =>
      refine ⟨x, xs, rfl, ?_⟩
      by_contra hx
      refine hagain fun y hy heq => hx (le_antisymm ?_ (hle x (List.mem_cons_self ..)))
      rcases List.mem_cons.1 hy with rfl | hy
      · exact heq.le
      · exact heq ▸ (ascending_cons.1 hrest).1 y hy

/-- A test of the key of a row. -/
def keepsRow (keep : Bytes → Bool) (row : List Entry) : Bool := row.head?.any fun e => keep e.key

/-- **Leaving out keys leaves out whole rows**, and joins none that stood apart. -/
theorem rows_filter (h : Ascending entries) (keep : Bytes → Bool) :
    rows (entries.filter fun e => keep e.key) = (rows entries).filter (keepsRow keep) := by
  induction entries with
  | nil => rfl
  | cons e rest ih =>
      obtain ⟨hle, hrest⟩ := ascending_cons.1 h
      have ih := ih hrest
      by_cases hne : ∀ y ∈ rest, y.key ≠ e.key
      · have hkeep : keepsRow keep [e] = keep e.key := rfl
        rw [rows_cons_of_ne hne, List.filter_cons, List.filter_cons, hkeep]
        split
        · rw [rows_cons_of_ne fun y hy => hne y (List.mem_filter.1 hy).1, ih]
        · exact ih
      · -- a key that comes again comes next, for none that follows lies below it
        obtain ⟨x, rest, rfl, hx⟩ := next_of_key_again hle hrest hne
        obtain ⟨row, others, hrows, hcons⟩ := rows_cons_cons hx rest
        rw [hcons]
        rw [hrows] at ih
        rw [List.filter_cons]
        split
        · next hkeep =>
          rw [List.filter_cons_of_pos (by simpa [hx] using hkeep)] at ih ⊢
          obtain ⟨row', others', hrows', hcons'⟩ :=
            rows_cons_cons hx (rest.filter fun e => keep e.key)
          rw [hcons']
          rw [hrows', List.filter_cons_of_pos (by simpa [keepsRow, hx] using hkeep)] at ih
          obtain ⟨hrow, hothers⟩ := List.cons.inj ih
          rw [(List.cons.inj hrow).2, hothers,
            List.filter_cons_of_pos (by simpa [keepsRow] using hkeep)]
        · next hkeep =>
          rw [ih, List.filter_cons_of_neg (by simpa [keepsRow, hx] using hkeep),
            List.filter_cons_of_neg (by simpa [keepsRow] using hkeep)]

theorem sublist_flatten_head? (lists : List (List Entry)) :
    (lists.filterMap List.head?).Sublist lists.flatten := by
  induction lists with
  | nil => exact .slnil
  | cons list lists ih =>
      cases list with
      | nil => exact ih
      | cons e list => exact (ih.trans (List.sublist_append_right _ _)).cons_cons e

/-! ### Locality -/

/-- An operator that keeps the order of keys and looks at one key at a time. -/
structure KeyLocal (operator : Operator) : Prop where
  ascending : ∀ {entries out}, Ascending entries → operator entries = .ok out → Ascending out
  /-- Leaving out keys before the operator runs is leaving them out of what it returns. -/
  filter : ∀ {entries out}, Ascending entries → operator entries = .ok out →
    ∀ keep : Bytes → Bool,
      operator (entries.filter fun e => keep e.key) = .ok (out.filter fun e => keep e.key)

/-- An operator keeps the order of keys and makes entries of no new ones. -/
def KeepsKeys (operator : Operator) : Prop :=
  ∀ ⦃entries out⦄, Ascending entries → operator entries = .ok out →
    Ascending out ∧ ∀ e ∈ out, ∃ x ∈ entries, x.key = e.key

theorem KeyLocal.keepsKeys {operator : Operator} (h : KeyLocal operator) : KeepsKeys operator := by
  intro entries out hasc hout
  refine ⟨h.ascending hasc hout, fun e he => ?_⟩
  let keep (key : Bytes) : Bool := entries.any fun x => decide (x.key = key)
  -- leaving out all keys that are not there leaves out nothing below, so nothing above
  have hall : (entries.filter fun e => keep e.key) = entries :=
    List.filter_eq_self.2 fun x hx => List.any_eq_true.2 ⟨x, hx, by simp⟩
  have hkept := h.filter hasc hout keep
  rw [hall, hout] at hkept
  have hkeep : keep e.key = true := by
    rw [Except.ok.inj hkept] at he
    exact (List.mem_filter.1 he).2
  obtain ⟨x, hx, heq⟩ := List.any_eq_true.1 hkeep
  exact ⟨x, hx, by simpa using heq⟩

/-- An operator that goes through entries and keeps their keys. -/
theorem keyLocal_pick {f : Entry → Except OperatorError (Option Entry)}
    (hkey : ∀ x y, f x = .ok (some y) → y.key = x.key) : KeyLocal (pick f) where
  ascending h hout := by
    have hsome : ∀ x y, f x = .ok (some y) → (fun x : Entry => some x.key) x = some y.key := by
      intro x y hxy
      simp [hkey x y hxy]
    refine h.of_sublist ((pick_sublist hsome hout).trans ?_)
    rw [List.filterMap_eq_map']
  filter _ hout keep := pick_filter (fun x y hxy => by rw [hkey x y hxy]) hout

/-! ### The operators -/

theorem pick_ok (accepts : Entry → Bool) :
    pick (fun e => (.ok (if accepts e then some e else none) : Except OperatorError _)) entries =
      .ok (entries.filter accepts) := by
  induction entries with
  | nil => rfl
  | cons e rest ih =>
      rw [pick_cons, ih, List.filter_cons]
      cases accepts e <;> rfl

theorem sampling_eq_ok {digest : Bytes → Bytes} {options : Options} {operator : Operator}
    (h : sampling digest options = .ok operator) :
    ∃ s, Sample.ofOptions options = .ok s ∧ operator = fun entries =>
      .ok (entries.filter fun e => (SampleFilter.ofSample s).admits digest e.key e.timestamp) := by
  obtain ⟨s, hs, h⟩ := bind_eq_ok.1 h
  exact ⟨s, hs, (Except.ok.inj h).symm⟩

theorem keyLocal_sampling {digest : Bytes → Bytes} {options : Options} {operator : Operator}
    (h : sampling digest options = .ok operator) : KeyLocal operator := by
  obtain ⟨s, -, rfl⟩ := sampling_eq_ok h
  let accepts (e : Entry) : Bool := (SampleFilter.ofSample s).admits digest e.key e.timestamp
  have hpick : pick (fun e => (.ok (if accepts e then some e else none))) =
      fun entries => (.ok (entries.filter accepts) : Except OperatorError _) :=
    funext fun entries => pick_ok accepts
  rw [← hpick]
  refine keyLocal_pick ?_
  intro x y hxy
  have := Except.ok.inj hxy
  split at this <;> simp_all

theorem run_eq_pick (f : PatternFilter) (entries : List Entry) :
    f.run entries =
      pick (fun e => (f.accepts e).map fun accepted => if accepted then some e else none)
        entries := by
  induction entries with
  | nil => rfl
  | cons e rest ih =>
      rw [PatternFilter.run, pick_cons, ih]
      cases f.accepts e with
      | error error => rfl
      | ok accepted =>
          cases accepted <;> cases pick (fun e => (f.accepts e).map _) rest <;> rfl

theorem patternFilter_eq_ok {options : Options} {operator : Operator}
    (h : patternFilter options = .ok operator) :
    ∃ f, PatternFilter.ofOptions options = .ok f ∧ operator = f.run := by
  rw [patternFilter] at h
  cases hf : PatternFilter.ofOptions options with
  | error error => simp [hf, Except.map] at h
  | ok f => exact ⟨f, rfl, by simpa [hf, Except.map] using h.symm⟩

theorem keyLocal_patternFilter {options : Options} {operator : Operator}
    (h : patternFilter options = .ok operator) : KeyLocal operator := by
  obtain ⟨f, -, rfl⟩ := patternFilter_eq_ok h
  rw [funext (run_eq_pick f)]
  refine keyLocal_pick ?_
  intro x y hxy
  cases haccepts : f.accepts x with
  | error e => simp [haccepts, Except.map] at hxy
  | ok accepted =>
      simp only [haccepts, Except.map, Except.ok.injEq] at hxy
      split at hxy <;> simp_all

theorem key_of_copyKey {order : FieldOrder} {keyCodec outputCodec : Codec} {x y : Entry}
    (h : copyKey order keyCodec outputCodec x = .ok y) : y.key = x.key := by
  obtain ⟨key, -, h⟩ := bind_eq_ok.1 h
  obtain ⟨value, -, h⟩ := bind_eq_ok.1 h
  rw [← Except.ok.inj h]

theorem mapM_eq_pick {α β ε : Type} (f : α → Except ε β) (xs : List α) :
    xs.mapM f = pick (fun x => (f x).map some) xs := by
  induction xs with
  | nil => rfl
  | cons x xs ih =>
      rw [List.mapM_cons, pick_cons, ih]
      cases f x with
      | error e => rfl
      | ok y => cases pick (fun x => (f x).map some) xs <;> rfl

theorem keyCopy_eq_ok {order : FieldOrder} {options : Options} {operator : Operator}
    (h : keyCopy order options = .ok operator) :
    ∃ keyCodec outputCodec, options.codec Options.keyCodec = .ok keyCodec ∧
      (if (options.get? Options.valueOutputCodec).isSome then options.codec Options.valueOutputCodec
        else .ok keyCodec) = .ok outputCodec ∧
      operator = fun entries => entries.mapM (copyKey order keyCodec outputCodec) := by
  obtain ⟨keyCodec, hkey, h⟩ := bind_eq_ok.1 h
  dsimp only at h
  split at h
  · next hsome =>
    obtain ⟨outputCodec, houtput, h⟩ := bind_eq_ok.1 h
    exact ⟨keyCodec, outputCodec, hkey, by rw [if_pos hsome, houtput], (Except.ok.inj h).symm⟩
  · next hnone =>
    exact ⟨keyCodec, keyCodec, hkey, by rw [if_neg hnone], (Except.ok.inj h).symm⟩

theorem keyLocal_keyCopy {order : FieldOrder} {options : Options} {operator : Operator}
    (h : keyCopy order options = .ok operator) : KeyLocal operator := by
  obtain ⟨keyCodec, outputCodec, -, -, rfl⟩ := keyCopy_eq_ok h
  rw [funext (mapM_eq_pick (copyKey order keyCodec outputCodec))]
  refine keyLocal_pick ?_
  intro x y hxy
  cases hcopy : copyKey order keyCodec outputCodec x with
  | error e => simp [hcopy, Except.map] at hxy
  | ok made =>
      simp only [hcopy, Except.map, Except.ok.injEq, Option.some.injEq] at hxy
      rw [← hxy, key_of_copyKey hcopy]

theorem key_of_summarizeRow {codec : Codec} {row : List Entry} {y : Entry}
    (h : summarizeRow codec row = .ok (some y)) : row.head?.map (·.key) = some y.key := by
  obtain ⟨s, -, h⟩ := bind_eq_ok.1 h
  obtain ⟨newest, hnewest, rfl⟩ := Option.map_eq_some_iff.1 (Except.ok.inj h)
  rw [hnewest]
  rfl

theorem rowSummary_eq_ok {options : Options} {operator : Operator}
    (h : rowSummary options = .ok operator) :
    ∃ codec, options.codec Options.valueInputCodec = .ok codec ∧
      operator = fun entries => pick (summarizeRow codec) (rows entries) := by
  obtain ⟨codec, hcodec, h⟩ := bind_eq_ok.1 h
  exact ⟨codec, hcodec, (Except.ok.inj h).symm⟩

/-- The summary of a row hangs on that row alone, and rows are whole keys. -/
theorem keyLocal_rowSummary {options : Options} {operator : Operator}
    (h : rowSummary options = .ok operator) : KeyLocal operator := by
  obtain ⟨codec, -, rfl⟩ := rowSummary_eq_ok h
  constructor
  · intro entries out hasc hout
    refine hasc.of_sublist ((pick_sublist (fun _ _ => key_of_summarizeRow) hout).trans ?_)
    rw [← List.map_filterMap]
    have hheads := sublist_flatten_head? (rows entries)
    rw [(rows_spec entries).2] at hheads
    exact hheads.map _
  · intro entries out hasc hout keep
    -- rows are whole keys, so leaving out keys leaves out whole rows
    rw [rows_filter hasc]
    refine pick_filter (fun row y hy => ?_) hout
    have hkey := key_of_summarizeRow hy
    cases row with
    | nil => simp at hkey
    | cons newest row => simpa [keepsRow] using congrArg keep (Option.some.inj hkey).symm

end Strata
