/-
**Operators under two orders of fields.**

When entries are read twice, the fields of their keys come in other orders the second time, and a
value that is a copy of its key is written in another order.  No operator tells such copies apart:
filters see the same text, aggregates and summaries add the same codes and the same numbers.  So the
second run fails nowhere that the first did not, and makes the same entries up to the order in which
the fields in copied keys are written.

* `Entry.SameUpToOrder` — one entry, read twice;
* `Entry.SameUpToOrder.decode` — **its values are the same**, up to the order of fields;
* `Reread`, `Reread.eq_of_singleFields` — what is found in two orders, and where it is one and the
  same;
* `Operator.Alike` — operators that make of such entries such entries;
* `forall₂_pick`, `forall₂_rows`, `foldlM_congr` — going through entries twice;
* `Registry.alike_builtin`, `Store.alike_runOperators` — **the operators**, and piles of them.
-/

import Strata.Proofs.Codec.FieldOrder
import Strata.Proofs.Operator.Gather

set_option relaxedAutoImplicit false
set_option autoImplicit false

namespace Strata

/-! ### Entries up to the order of fields -/

/-- One entry, read twice.  Its key and its timestamp are the same, and so is its value, unless that
is a copy of a key that holds an object of two fields, written each time with the fields in an order
of their own. -/
structure Entry.SameUpToOrder (e e' : Entry) : Prop where
  key : e'.key = e.key
  timestamp : e'.timestamp = e.timestamp
  value : e'.value = e.value ∨ ∃ (keyCodec outputCodec : Codec) (key : Value),
    keyCodec.decode e.key = .ok key ∧ ¬ key.SingleFields ∧
      outputCodec.Writes key e.value ∧ outputCodec.Writes key e'.value

namespace Entry

variable {e e' : Entry} {codec : Codec} {v : Value}

theorem SameUpToOrder.refl (e : Entry) : e.SameUpToOrder e := ⟨rfl, rfl, Or.inl rfl⟩

theorem SameUpToOrder.refl_all (entries : List Entry) :
    List.Forall₂ SameUpToOrder entries entries := List.forall₂_same.2 fun e _ => .refl e

/-- The same value in the place of both. -/
theorem SameUpToOrder.withValue (h : e.SameUpToOrder e') (bytes : Bytes) :
    SameUpToOrder { e with value := bytes } { e' with value := bytes } :=
  ⟨h.key, h.timestamp, Or.inl rfl⟩

/-- Two copies of the key in the place of the value. -/
theorem SameUpToOrder.copied (h : e.SameUpToOrder e') {keyCodec : Codec} {key : Value}
    (hkey : keyCodec.decode e.key = .ok key) {one other : Bytes} (hone : codec.Writes key one)
    (hother : codec.Writes key other) :
    SameUpToOrder { e with value := one } { e' with value := other } := by
  refine ⟨h.key, h.timestamp, ?_⟩
  by_cases hsingle : key.SingleFields
  · exact Or.inl (hother.eq_of_singleFields hsingle hone)
  · exact Or.inr ⟨keyCodec, codec, key, hkey, hsingle, hone, hother⟩

/-- **What is read of the value is the same**, up to the order of fields. -/
theorem SameUpToOrder.decode (h : e.SameUpToOrder e') (hread : codec.decode e.value = .ok v) :
    ∃ v', codec.decode e'.value = .ok v' ∧ v.Rearranged v' := by
  rcases h.value with heq | ⟨keyCodec, outputCodec, key, hkey, -, hone, hother⟩
  · exact ⟨v, heq ▸ hread, .refl⟩
  · exact hone.decode hkey hother hread

end Entry

/-- Of a key without an object of two fields all copies are the same. -/
theorem Entry.SameUpToOrder.eq_of_singleFields {e e' : Entry} (h : e.SameUpToOrder e')
    (hkey : ∀ (codec : Codec) (key : Value), codec.decode e.key = .ok key → key.SingleFields) :
    e' = e := by
  have hvalue : e'.value = e.value := by
    refine h.value.resolve_right ?_
    rintro ⟨keyCodec, outputCodec, key, hdecode, hmany, -, -⟩
    exact hmany (hkey keyCodec key hdecode)
  obtain ⟨key, value, timestamp⟩ := e
  obtain ⟨key', value', timestamp'⟩ := e'
  rw [Entry.mk.injEq]
  exact ⟨h.key, hvalue, h.timestamp⟩

/-- What is found in one order of fields, and found again in another. -/
structure Reread (order again : FieldOrder) (found found' : List Entry) : Prop where
  same : List.Forall₂ Entry.SameUpToOrder found found'
  /-- In the same order the same is found. -/
  ofSameOrder : again = order → found' = found

/-- **The same is found in any order** of keys that hold no object of two fields. -/
theorem Reread.eq_of_singleFields {order again : FieldOrder} {found found' : List Entry}
    (h : Reread order again found found') (hkeys : ∀ e ∈ found, ∀ (codec : Codec) (key : Value),
      codec.decode e.key = .ok key → key.SingleFields) : found' = found := by
  have hsame := h.same
  clear h
  induction hsame with
  | nil => rfl
  | cons he _ ih =>
      rw [List.forall_mem_cons] at hkeys
      rw [he.eq_of_singleFields hkeys.1, ih hkeys.2]

/-! ### Going through entries twice -/

section Twice

variable {α α' β β' ε : Type} {R : α → α' → Prop} {S : β → β' → Prop} {xs : List α} {xs' : List α'}

theorem forall₂_pick {f : α → Except ε (Option β)} {f' : α' → Except ε (Option β')}
    (hf : ∀ x x' y, R x x' → f x = .ok y → ∃ y', f' x' = .ok y' ∧ Option.Rel S y y')
    (h : List.Forall₂ R xs xs') {out : List β} (hout : pick f xs = .ok out) :
    ∃ out', pick f' xs' = .ok out' ∧ List.Forall₂ S out out' := by
  induction h generalizing out with
  | nil =>
      obtain rfl : [] = out := Except.ok.inj hout
      exact ⟨[], rfl, .nil⟩
  | cons hx _ ih =>
      obtain ⟨y, rest, hy, hrest, rfl⟩ := pick_cons_eq_ok hout
      obtain ⟨y', hy', hrel⟩ := hf _ _ y hx hy
      obtain ⟨rest', hrest', hrels⟩ := ih hrest
      refine ⟨y'.toList ++ rest', by rw [pick_cons, hy', hrest']; rfl, ?_⟩
      cases hrel with
      | none => exact hrels
      | some hone => exact .cons hone hrels

/-- Folds that take the same step at related items end in the same place. -/
theorem foldlM_congr {f : β → α → Except ε β} {f' : β → α' → Except ε β}
    (hf : ∀ x x' b c, R x x' → f b x = .ok c → f' b x' = .ok c) (h : List.Forall₂ R xs xs')
    {b c : β} (hout : xs.foldlM f b = .ok c) : xs'.foldlM f' b = .ok c := by
  induction h generalizing b with
  | nil => exact hout
  | cons hx _ ih =>
      rw [List.foldlM_cons] at hout ⊢
      obtain ⟨d, hd, hout⟩ := bind_eq_ok.1 hout
      rw [hf _ _ b d hx hd]
      exact ih hout

theorem forall₂_head? (h : List.Forall₂ R xs xs') : Option.Rel R xs.head? xs'.head? := by
  cases h with
  | nil => exact .none
  | cons hx _ => exact .some hx

theorem forall₂_getLast? (h : List.Forall₂ R xs xs') : Option.Rel R xs.getLast? xs'.getLast? := by
  rw [← List.head?_reverse, ← List.head?_reverse]
  exact forall₂_head? (List.rel_reverse h)

end Twice

variable {entries entries' : List Entry}

/-- Entries of the same keys fall into the same rows. -/
theorem forall₂_rows (h : List.Forall₂ Entry.SameUpToOrder entries entries') :
    List.Forall₂ (List.Forall₂ Entry.SameUpToOrder) (rows entries) (rows entries') := by
  induction h with
  | nil => exact .nil
  | @cons e e' rest rest' he hrest ih =>
      rw [rows, rows]
      generalize rows rest = all, rows rest' = all' at ih
      cases ih with
      | nil => exact .cons (.cons he .nil) .nil
      | cons hrow hothers =>
          cases hrow with
          | nil => exact .cons (.cons he .nil) (.cons .nil hothers)
          | cons hnext hrow =>
              dsimp only
              rw [hnext.key, he.key]
              split
              · exact .cons (.cons he (.cons hnext hrow)) hothers
              · exact .cons (.cons he .nil) (.cons (.cons hnext hrow) hothers)

/-! ### Operators -/

/-- Of entries that are the same up to the order of fields the operators make such entries, and the
second fails nowhere that the first does not. -/
def Operator.Alike (operator again : Operator) : Prop :=
  ∀ ⦃entries entries' out⦄, List.Forall₂ Entry.SameUpToOrder entries entries' →
    operator entries = .ok out →
      ∃ out', again entries' = .ok out' ∧ List.Forall₂ Entry.SameUpToOrder out out'

variable {operator : Operator} {options : Options} {order again : FieldOrder}
  {digest : Bytes → Bytes}

theorem alike_sampling (h : sampling digest options = .ok operator) : operator.Alike operator := by
  obtain ⟨s, -, rfl⟩ := sampling_eq_ok h
  intro entries entries' out halike hout
  refine ⟨_, rfl, ?_⟩
  rw [← Except.ok.inj hout]
  refine List.rel_filter (fun e e' he => ?_) halike
  simp only [he.key, he.timestamp]

/-- What was read twice is shown as the same text. -/
theorem matchesText_eq_ok {e e' : Entry} (he : e.SameUpToOrder e') {codec : Codec}
    {pattern : Option Pattern} {found : Bool}
    (h : PatternFilter.matchesText codec pattern e.value = .ok found) :
    PatternFilter.matchesText codec pattern e'.value = .ok found := by
  cases pattern with
  | none => exact h
  | some p =>
      obtain ⟨v, hv, rfl⟩ := map_eq_ok.1 h
      have hread := OperatorError.ofCodec_eq_ok.1 hv
      obtain ⟨v', hv', hvv'⟩ := he.decode hread
      rw [PatternFilter.matchesText, OperatorError.ofCodec_eq_ok.2 hv',
        hvv'.render_eq (Codec.namesDistinct_of_decode hread)]
      rfl

theorem accepts_eq_ok {e e' : Entry} (he : e.SameUpToOrder e') {f : PatternFilter} {accepted : Bool}
    (h : f.accepts e = .ok accepted) : f.accepts e' = .ok accepted := by
  rw [PatternFilter.accepts] at h ⊢
  rw [he.key]
  split at h
  · cases h
  · exact h
  · exact matchesText_eq_ok he h

theorem alike_patternFilter (h : patternFilter options = .ok operator) :
    operator.Alike operator := by
  obtain ⟨f, -, rfl⟩ := patternFilter_eq_ok h
  intro entries entries' out halike hout
  rw [run_eq_pick] at hout ⊢
  refine forall₂_pick (fun e e' y he hy => ?_) halike hout
  obtain ⟨accepted, haccepted, rfl⟩ := map_eq_ok.1 hy
  refine ⟨if accepted then some e' else none, by rw [accepts_eq_ok he haccepted]; rfl, ?_⟩
  cases accepted
  · exact .none
  · exact .some he

/-- Keys that are copied twice are copied in two orders. -/
theorem exists_copyKey {keyCodec outputCodec : Codec} {e e' y : Entry} (he : e.SameUpToOrder e')
    (again : FieldOrder) (h : copyKey order keyCodec outputCodec e = .ok y) :
    ∃ y', copyKey again keyCodec outputCodec e' = .ok y' ∧ y.SameUpToOrder y' := by
  obtain ⟨key, hkey, h⟩ := bind_eq_ok.1 h
  obtain ⟨one, hone, h⟩ := bind_eq_ok.1 h
  obtain rfl := Except.ok.inj h
  have hdecode := OperatorError.ofCodec_eq_ok.1 hkey
  have hencode := OperatorError.ofCodec_eq_ok.1 hone
  have horder := order.rearranged e key
  have hagain := again.rearranged e' key
  obtain ⟨other, hother⟩ :=
    Codec.exists_encode_of_rearranged (horder.symm.trans hagain) hencode
  refine ⟨{ e' with value := other }, ?_,
    he.copied hdecode ⟨_, horder, hencode⟩ ⟨_, hagain, hother⟩⟩
  simp only [copyKey, he.key, hdecode, hother, OperatorError.ofCodec, bind, Except.bind, pure,
    Except.pure]

/-- A key with two fields, copied in two orders. -/
example :
    let key := Codec.pack (.object [("a", .null), ("b", .bool true)])
    (copyKey .asRead .packed .packed ⟨key, [], 1⟩).map (·.value) = .ok key ∧
      (copyKey .reversed .packed .packed ⟨key, [], 1⟩).map (·.value) =
        .ok (Codec.pack (.object [("b", .bool true), ("a", .null)])) := by
  decide +kernel

theorem alike_keyCopy (again : FieldOrder) (h : keyCopy order options = .ok operator) :
    ∃ operator', keyCopy again options = .ok operator' ∧ operator.Alike operator' := by
  obtain ⟨keyCodec, outputCodec, hkey, houtput, rfl⟩ := keyCopy_eq_ok h
  refine ⟨fun entries => entries.mapM (copyKey again keyCodec outputCodec), ?_, ?_⟩
  · rw [keyCopy, hkey]
    split at houtput
    · next hsome =>
      simp only [bind, Except.bind, if_pos hsome, houtput]
      rfl
    · next hnone =>
      obtain rfl := Except.ok.inj houtput
      simp only [bind, Except.bind, if_neg hnone]
      rfl
  · intro entries entries' out halike hout
    simp only [mapM_eq_pick] at hout ⊢
    refine forall₂_pick (fun e e' y he hy => ?_) halike hout
    obtain ⟨copied, hcopied, rfl⟩ := map_eq_ok.1 hy
    obtain ⟨copied', hcopied', hsame⟩ := exists_copyKey he again hcopied
    exact ⟨some copied', by rw [hcopied']; rfl, .some hsame⟩

/-- The numbers among values that are read twice are the same. -/
theorem summarize_eq_ok {codec : Codec} {s : Summary Float}
    (h : List.Forall₂ Entry.SameUpToOrder entries entries') (hs : summarize codec entries = .ok s) :
    summarize codec entries' = .ok s := by
  refine foldlM_congr (fun e e' b c he hc => ?_) h hs
  obtain ⟨v, hv, hc⟩ := bind_eq_ok.1 hc
  obtain ⟨v', hv', hvv'⟩ := he.decode (OperatorError.ofCodec_eq_ok.1 hv)
  rw [addNumber, OperatorError.ofCodec_eq_ok.2 hv', ← hc, hvv'.number?_eq]
  rfl

theorem alike_rowSummary (h : rowSummary options = .ok operator) : operator.Alike operator := by
  obtain ⟨codec, -, rfl⟩ := rowSummary_eq_ok h
  intro entries entries' out halike hout
  refine forall₂_pick (fun row row' y hrow hy => ?_) (forall₂_rows halike) hout
  obtain ⟨s, hs, hy⟩ := bind_eq_ok.1 hy
  refine ⟨_, by rw [summarizeRow, summarize_eq_ok hrow hs]; rfl, ?_⟩
  rw [← Except.ok.inj hy]
  have hhead := forall₂_head? hrow
  generalize row.head? = newest, row'.head? = newest' at hhead
  cases hhead with
  | none => exact .none
  | some he => exact .some (he.withValue _)

theorem alike_gather {value : List Entry → Except OperatorError Bytes}
    (hvalue : ∀ entries entries' bytes, List.Forall₂ Entry.SameUpToOrder entries entries' →
      value entries = .ok bytes → value entries' = .ok bytes) :
    Operator.Alike (gather value) (gather value) := by
  intro entries entries' out halike hout
  have hlast := forall₂_getLast? halike
  rw [gather] at hout ⊢
  generalize entries.getLast? = last, entries'.getLast? = last' at hlast hout
  cases hlast with
  | none => exact ⟨[], rfl, Except.ok.inj hout ▸ .nil⟩
  | some he =>
      obtain ⟨bytes, hbytes, rfl⟩ := map_eq_ok.1 hout
      exact ⟨_, by rw [hvalue entries entries' bytes halike hbytes]; rfl,
        .cons (he.withValue bytes) .nil⟩

theorem alike_countAll (options : Options) (h : countAll options = .ok operator) :
    operator.Alike operator := by
  obtain rfl := Except.ok.inj h
  refine alike_gather fun entries entries' bytes halike hbytes => ?_
  rw [← halike.length_eq]
  exact hbytes

theorem alike_checksumAll (h : checksumAll options = .ok operator) : operator.Alike operator := by
  obtain ⟨keyCodec, -, h⟩ := bind_eq_ok.1 h
  obtain ⟨codec, -, h⟩ := bind_eq_ok.1 h
  obtain rfl := Except.ok.inj h
  refine alike_gather fun entries entries' bytes halike hbytes => ?_
  obtain ⟨c, hc, rfl⟩ := map_eq_ok.1 hbytes
  refine map_eq_ok.2 ⟨c, foldlM_congr (fun e e' b c he hc => ?_) halike hc, rfl⟩
  obtain ⟨key, hkey, hc⟩ := bind_eq_ok.1 hc
  obtain ⟨v, hv, hc⟩ := bind_eq_ok.1 hc
  obtain ⟨v', hv', hvv'⟩ := he.decode (OperatorError.ofCodec_eq_ok.1 hv)
  rw [addHashes, he.key, hkey, OperatorError.ofCodec_eq_ok.2 hv', ← hc]
  simp only [bind, Except.bind, pure, Except.pure, Checksum.add, hvv'.hashCode_eq]

theorem alike_summarizeAll (h : summarizeAll options = .ok operator) : operator.Alike operator := by
  obtain ⟨codec, -, h⟩ := bind_eq_ok.1 h
  obtain rfl := Except.ok.inj h
  refine alike_gather fun entries entries' bytes halike hbytes => ?_
  obtain ⟨s, hs, rfl⟩ := map_eq_ok.1 hbytes
  exact map_eq_ok.2 ⟨s, summarize_eq_ok halike hs, rfl⟩

namespace Registry

variable {setting : Setting}

/-- Only copies of keys know of an order. -/
theorem find?_builtin_of_ne (order again : FieldOrder) {id : String} (h : id ≠ "key_to_key") :
    (builtin digest again).find? id = (builtin digest order).find? id := by
  have hne : ("key_to_key" == id) = false := beq_false_of_ne h.symm
  simp only [builtin_eq, find?, List.find?_cons, hne]

/-- Descriptors know of none. -/
theorem descriptor_builtin (digest : Bytes → Bytes) (order again : FieldOrder) (id : String) :
    (builtin digest again).descriptor id = (builtin digest order).descriptor id := by
  by_cases hcopy : id = "key_to_key"
  · rw [hcopy, builtin_eq, builtin_eq]
    rfl
  · rw [descriptor, descriptor, find?_builtin_of_ne order again hcopy]

/-- **Every built-in operator can be built for any order**, and makes the same entries up to it. -/
theorem alike_builtin (again : FieldOrder)
    (hbuild : (builtin digest order).build setting = .ok operator) :
    ∃ operator', (builtin digest again).build setting = .ok operator' ∧
      operator.Alike operator' := by
  obtain ⟨r, hfind, hr⟩ := build_eq_ok hbuild
  obtain ⟨hmem, hid⟩ := find?_eq_some hfind
  by_cases hcopy : setting.id = "key_to_key"
  · have hbuilt : ∀ order,
        (builtin digest order).build setting = keyCopy order setting.options := by
      intro order
      rw [build, hcopy, builtin_eq]
      rfl
    rw [hbuilt] at hbuild ⊢
    exact alike_keyCopy again hbuild
  · refine ⟨operator, by rw [build, find?_builtin_of_ne order again hcopy, hfind]; exact hr, ?_⟩
    rw [builtin_eq] at hmem
    simp only [List.mem_cons, List.not_mem_nil, or_false] at hmem
    rcases hmem with rfl | rfl | rfl | rfl | rfl | rfl | rfl
    · exact alike_checksumAll hr
    · exact alike_countAll setting.options hr
    · exact absurd hid.symm hcopy
    · exact alike_patternFilter hr
    · exact alike_rowSummary hr
    · exact alike_sampling hr
    · exact alike_summarizeAll hr

end Registry

/-- **Piles of built-in operators make the same entries** up to the order of fields. -/
theorem Store.alike_runOperators (digest : Bytes → Bytes) (order again : FieldOrder)
    (settings : List Setting) :
    Operator.Alike (runOperators (.builtin digest order) settings)
      (runOperators (.builtin digest again) settings) := by
  induction settings with
  | nil =>
      intro entries entries' out halike hout
      exact ⟨entries', rfl, Except.ok.inj hout ▸ halike⟩
  | cons setting settings ih =>
      intro entries entries' out halike hout
      rw [runOperators] at hout ⊢
      split at hout
      · cases hout
      · next operator hbuild =>
        split at hout
        · cases hout
        · next made hmade =>
          obtain ⟨operator', hbuild', hoperator⟩ := Registry.alike_builtin again hbuild
          obtain ⟨made', hmade', hsame⟩ := hoperator halike hmade
          simp only [hbuild', hmade']
          exact ih hsame hout

end Strata
