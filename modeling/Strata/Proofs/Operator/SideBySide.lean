/-
**Operators on entries side by side.**

A stream can be cut where the key changes.  An operator that goes through single entries, or through
the rows of all versions of a key, makes of two such parts, one behind the other, what it makes of
each of them: no row reaches across the cut.  Aggregates are not of this kind.

* `pick_append` — pieces side by side;
* `rows_append` — no row reaches across a cut;
* `SplitsAtKeys` — **the property**, with `splitsAtKeys_pick` for all that goes through pieces;
* `Registry.splitsAtKeys_builtin` — the operators that are always known and have it;
* `Store.splitsAtKeys_runOperators` — piles of such operators.
-/

import Strata.Proofs.Operator.Builtin
import Strata.Proofs.Store.Narrow

set_option relaxedAutoImplicit false
set_option autoImplicit false

namespace Strata

/-! ### Pieces side by side -/

theorem pick_append {α β ε : Type} (f : α → Except ε (Option β)) (xs ys : List α) :
    pick f (xs ++ ys) = (pick f xs).bind fun left => (pick f ys).map (left ++ ·) := by
  induction xs with
  | nil => cases hys : pick f ys <;> simp [hys, Except.bind, Except.map]
  | cons x xs ih =>
      rw [List.cons_append, pick_cons, pick_cons, ih]
      cases f x with
      | error e => rfl
      | ok y =>
          cases pick f xs with
          | error e => rfl
          | ok left => cases pick f ys <;> simp [Except.bind, Except.map]

/-- No key stands in both lists. -/
def KeysApart (xs ys : List Entry) : Prop := ∀ x ∈ xs, ∀ y ∈ ys, y.key ≠ x.key

variable {xs ys entries out : List Entry}

/-- **No row reaches across a cut** between entries whose keys are apart. -/
theorem rows_append (h : KeysApart xs ys) : rows (xs ++ ys) = rows xs ++ rows ys := by
  induction xs with
  | nil => rfl
  | cons x xs ih =>
      have hrest : KeysApart xs ys := fun e he => h e (List.mem_cons_of_mem x he)
      have ih := ih hrest
      cases xs with
      | nil => exact rows_cons_of_ne (h x (List.mem_singleton_self x))
      | cons next xs =>
          -- both lists go on with the same entry, which alone decides what the first one joins
          obtain ⟨row, others, hrows⟩ := exists_rows_cons next xs
          have hwhole : rows (next :: xs ++ ys) = (next :: row) :: (others ++ rows ys) := by
            rw [ih, hrows, List.cons_append]
          rw [List.cons_append, rows_cons_of_rows hwhole, rows_cons_of_rows hrows]
          split
          · rfl
          · rfl

/-! ### The property -/

/-- Of entries side by side whose keys are apart, the operator makes what it makes of each side. -/
structure SplitsAtKeys (operator : Operator) : Prop where
  nil : operator [] = .ok []
  keepsKeys : KeepsKeys operator
  append : ∀ {xs ys out}, Ascending (xs ++ ys) → KeysApart xs ys →
    (operator (xs ++ ys) = .ok out ↔
      ∃ left right, operator xs = .ok left ∧ operator ys = .ok right ∧ out = left ++ right)

/-- What is made of two sides meets at a cut again. -/
theorem SplitsAtKeys.seam {operator : Operator} {left right : List Entry}
    (h : SplitsAtKeys operator)
    (hasc : Ascending (xs ++ ys)) (hapart : KeysApart xs ys) (hleft : operator xs = .ok left)
    (hright : operator ys = .ok right) : Ascending (left ++ right) ∧ KeysApart left right := by
  have hwhole : operator (xs ++ ys) = .ok (left ++ right) :=
    (h.append hasc hapart).2 ⟨left, right, hleft, hright, rfl⟩
  have hxs : Ascending xs := hasc.of_sublist ((List.sublist_append_left xs ys).map _)
  have hys : Ascending ys := hasc.of_sublist ((List.sublist_append_right xs ys).map _)
  refine ⟨(h.keepsKeys hasc hwhole).1, fun a ha b hb => ?_⟩
  obtain ⟨x, hx, hax⟩ := (h.keepsKeys hxs hleft).2 a ha
  obtain ⟨y, hy, hby⟩ := (h.keepsKeys hys hright).2 b hb
  rw [← hax, ← hby]
  exact hapart x hx y hy

/-- **Of many parts whose keys are apart**, one behind the other, the operator makes what it makes
of each of them. -/
theorem SplitsAtKeys.flatMap {operator : Operator} (h : SplitsAtKeys operator) {α : Type}
    {parts : List α} {part : α → List Entry} (hasc : Ascending (parts.flatMap part))
    (hapart : parts.Pairwise fun a b => KeysApart (part a) (part b)) :
    operator (parts.flatMap part) = .ok out ↔
      (∀ a ∈ parts, ∃ made, operator (part a) = .ok made) ∧
        out = parts.flatMap fun a => (operator (part a)).toOption.getD [] := by
  induction parts generalizing out with
  | nil =>
      rw [List.flatMap_nil, h.nil]
      simp [eq_comm]
  | cons a parts ih =>
      obtain ⟨hfirst, hparts⟩ := List.pairwise_cons.1 hapart
      rw [List.flatMap_cons] at hasc
      have hrest : Ascending (parts.flatMap part) :=
        hasc.of_sublist ((List.sublist_append_right _ _).map _)
      have hseam : KeysApart (part a) (parts.flatMap part) := by
        intro x hx y hy
        obtain ⟨b, hb, hy⟩ := List.mem_flatMap.1 hy
        exact hfirst b hb x hx y hy
      rw [List.flatMap_cons, List.flatMap_cons, h.append hasc hseam, List.forall_mem_cons]
      constructor
      · rintro ⟨left, right, hleft, hright, rfl⟩
        obtain ⟨hall, rfl⟩ := (ih hrest hparts).1 hright
        exact ⟨⟨⟨left, hleft⟩, hall⟩, by rw [hleft]; rfl⟩
      · rintro ⟨⟨⟨left, hleft⟩, hall⟩, rfl⟩
        exact ⟨left, _, hleft, (ih hrest hparts).2 ⟨hall, rfl⟩, by rw [hleft]; rfl⟩

/-- An operator that goes through pieces which a cut leaves whole. -/
theorem splitsAtKeys_pick {α : Type} {f : α → Except OperatorError (Option Entry)}
    {pieces : List Entry → List α} (hnil : pieces [] = [])
    (hpieces : ∀ xs ys, KeysApart xs ys → pieces (xs ++ ys) = pieces xs ++ pieces ys)
    (hkeys : KeepsKeys fun entries => pick f (pieces entries)) :
    SplitsAtKeys fun entries => pick f (pieces entries) where
  nil := by rw [hnil, pick_nil]
  keepsKeys := hkeys
  append := by
    intro xs ys out _ hapart
    rw [hpieces xs ys hapart, pick_append, bind_eq_ok]
    constructor
    · rintro ⟨left, hleft, hout⟩
      cases hright : pick f (pieces ys) with
      | error e => simp [hright, Except.map] at hout
      | ok right =>
          rw [hright] at hout
          exact ⟨left, right, hleft, rfl, (Except.ok.inj hout).symm⟩
    · rintro ⟨left, right, hleft, hright, rfl⟩
      exact ⟨left, hleft, by rw [hright]; rfl⟩

/-- An operator that goes through single entries. -/
theorem splitsAtKeys_of_pick {f : Entry → Except OperatorError (Option Entry)}
    {operator : Operator} (heq : operator = pick f) (hlocal : KeyLocal operator) :
    SplitsAtKeys operator := by
  subst heq
  exact @splitsAtKeys_pick _ f (fun entries => entries) rfl (fun _ _ _ => rfl) hlocal.keepsKeys

/-! ### The operators -/

namespace Registry

/-- The names of the operators that are always known and are no aggregates. -/
def localIds : List String := ["sampling", "regex_filter", "key_to_key", "row_stats"]

/-- **Samples, filters by pattern, copies of keys and summaries of rows split at keys.** -/
theorem splitsAtKeys_builtin {digest : Bytes → Bytes} {order : FieldOrder} {setting : Setting}
    {operator : Operator} (hid : setting.id ∈ localIds)
    (hbuild : (builtin digest order).build setting = .ok operator) :
    SplitsAtKeys operator := by
  obtain ⟨r, hfind, hr⟩ := build_eq_ok hbuild
  rw [builtin_eq] at hfind
  simp only [localIds, List.mem_cons, List.not_mem_nil, or_false] at hid
  rcases hid with hid | hid | hid | hid <;> rw [hid] at hfind <;>
    obtain rfl := Option.some.inj hfind
  · have hlocal := keyLocal_sampling hr
    obtain ⟨s, -, rfl⟩ := sampling_eq_ok hr
    exact splitsAtKeys_of_pick (funext fun entries => (pick_ok _).symm) hlocal
  · have hlocal := keyLocal_patternFilter hr
    obtain ⟨f, -, rfl⟩ := patternFilter_eq_ok hr
    exact splitsAtKeys_of_pick (funext (run_eq_pick f)) hlocal
  · have hlocal := keyLocal_keyCopy hr
    obtain ⟨keyCodec, outputCodec, -, -, rfl⟩ := keyCopy_eq_ok hr
    exact splitsAtKeys_of_pick (funext (mapM_eq_pick _)) hlocal
  · have hlocal := keyLocal_rowSummary hr
    obtain ⟨codec, -, rfl⟩ := rowSummary_eq_ok hr
    exact splitsAtKeys_pick rows_nil (fun _ _ => rows_append) hlocal.keepsKeys

end Registry

/-! ### Piles of operators -/

namespace Store

variable {registry : Registry} {settings : List Setting} {setting : Setting} {operator : Operator}

/-- A pile runs on what its lowest operator makes. -/
theorem runOperators_cons_iff (hbuild : registry.build setting = .ok operator) :
    runOperators registry (setting :: settings) entries = .ok out ↔
      ∃ made, operator entries = .ok made ∧ runOperators registry settings made = .ok out := by
  constructor
  · intro hout
    obtain ⟨known, made, hknown, hmade, hout⟩ := runOperators_cons_eq_ok hout
    rw [hbuild] at hknown
    exact ⟨made, Except.ok.inj hknown ▸ hmade, hout⟩
  · rintro ⟨made, hmade, hout⟩
    rw [runOperators, hbuild]
    simp only [hmade, hout]

/-- **A pile of operators splits at keys if all of them do.** -/
theorem splitsAtKeys_runOperators
    (h : ∀ s ∈ settings, ∃ operator, registry.build s = .ok operator ∧ SplitsAtKeys operator) :
    SplitsAtKeys (runOperators registry settings) := by
  induction settings with
  | nil =>
      refine ⟨rfl, keepsKeys_runOperators (by simp), fun {xs ys out} _ _ => ?_⟩
      constructor
      · intro hout
        exact ⟨xs, ys, rfl, rfl, (Except.ok.inj hout).symm⟩
      · rintro ⟨left, right, hleft, hright, rfl⟩
        rw [← Except.ok.inj hleft, ← Except.ok.inj hright]
        rfl
  | cons setting settings ih =>
      obtain ⟨⟨operator, hbuild, hone⟩, hrest⟩ := List.forall_mem_cons.1 h
      have ih := ih hrest
      have hkeys : KeepsKeys (runOperators registry (setting :: settings)) := by
        refine keepsKeys_runOperators fun s hs known hknown => ?_
        obtain ⟨operator, hbuild, hsplits⟩ := h s hs
        rw [hknown] at hbuild
        exact Except.ok.inj hbuild ▸ hsplits.keepsKeys
      refine ⟨(runOperators_cons_iff hbuild).2 ⟨[], hone.nil, ih.nil⟩, hkeys,
        fun {xs ys out} hasc hapart => ?_⟩
      rw [runOperators_cons_iff hbuild]
      constructor
      · rintro ⟨made, hmade, hout⟩
        obtain ⟨left, right, hleft, hright, rfl⟩ := (hone.append hasc hapart).1 hmade
        obtain ⟨hascMade, hapartMade⟩ := hone.seam hasc hapart hleft hright
        obtain ⟨a, b, ha, hb, rfl⟩ := (ih.append hascMade hapartMade).1 hout
        exact ⟨a, b, (runOperators_cons_iff hbuild).2 ⟨left, hleft, ha⟩,
          (runOperators_cons_iff hbuild).2 ⟨right, hright, hb⟩, rfl⟩
      · rintro ⟨a, b, ha, hb, rfl⟩
        obtain ⟨left, hleft, ha⟩ := (runOperators_cons_iff hbuild).1 ha
        obtain ⟨right, hright, hb⟩ := (runOperators_cons_iff hbuild).1 hb
        obtain ⟨hascMade, hapartMade⟩ := hone.seam hasc hapart hleft hright
        exact ⟨left ++ right, (hone.append hasc hapart).2 ⟨left, right, hleft, hright, rfl⟩,
          (ih.append hascMade hapartMade).2 ⟨a, b, ha, hb, rfl⟩⟩

end Store

end Strata
