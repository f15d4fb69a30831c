/-
**The summary of a view.**

The summary of the numbers of a view is merged from those that the partitions leave, in the bytes
that they are written as.  A partition leaves a summary wherever it shows something, be it only
texts or NaNs, and none else.  So there are summaries that count nothing among the merged ones, and
summaries whose extremes are NaNs; neither they nor the cuts between partitions make a difference to
what is counted, or to the extremes.

* `Aggregation.covers_foldItems` — **folding the summaries of parts**;
* `View.Sound.covers_of_stats` — **what the summary of a view covers**;
* `View.stats_covers` — the same of every derived view, and the bytes of summaries.
-/

import Strata.Proofs.Codec.RoundTrip
import Strata.Proofs.Map.Aggregates
import Strata.Proofs.Summary.Extremes
import Strata.Proofs.View.AggregateScan
import Strata.Proofs.View.StoredKeys

set_option relaxedAutoImplicit false
set_option autoImplicit false

namespace Strata

/-! ### Summaries of parts -/

namespace Aggregation

variable {keyCodec valueCodec : Codec} {part : List Entry} {left : Entry}

/-- The numbers of a part, and their summary in the place of a value. -/
theorem exists_values_of_partial (h : Partial "stats" keyCodec valueCodec part left) :
    ∃ values : List Value,
      List.Forall₂ (fun e v => valueCodec.decode e.value = .ok v) part values ∧
      left.value = writeSummary (Summary.ofList (values.filterMap Value.number?)) := by
  simpa [StandsFor, Summary.ofList] using h.value

/-- **Folding the summaries of parts** covers the numbers of all of them, as long as 64 bits hold
their count. -/
theorem covers_foldItems {parts : List (List Entry)} {found : List Entry}
    (h : List.Forall₂ (Partial "stats" keyCodec valueCodec) parts found)
    {total s : Summary Float} (hs : summary.foldItems (found.map .ok) total = .ok s) :
    ∃ values : List Value,
      List.Forall₂ (fun e v => valueCodec.decode e.value = .ok v) parts.flatten values ∧
      ∀ xs, total.Covers xs → (values.filterMap Value.number?).length < 2 ^ 64 →
        s.Covers (xs ++ values.filterMap Value.number?) := by
  induction h generalizing total with
  | nil =>
      obtain rfl := Except.ok.inj hs
      exact ⟨[], .nil, fun xs htotal _ => by simpa using htotal⟩
  | @cons part left parts found hleft _ ih =>
      obtain ⟨values, hvalues, hvalue⟩ := exists_values_of_partial hleft
      rw [List.map_cons, foldItems, hvalue, fold_summary] at hs
      obtain ⟨others, hothers, hcovers⟩ := ih hs
      refine ⟨values ++ others, List.rel_append hvalues hothers, fun xs htotal hlength => ?_⟩
      rw [List.filterMap_append, List.length_append] at hlength
      rw [List.filterMap_append, ← List.append_assoc]
      have hpart := Summary.covers_ofList (values.filterMap Value.number?)
      -- 64 bits hold the count of the part as well
      have hcount : (Summary.ofList (values.filterMap Value.number?)).count % 2 ^ 64 =
          (Summary.ofList (values.filterMap Value.number?)).count :=
        Nat.mod_eq_of_lt (hpart.count.symm ▸ by omega)
      rw [hcount] at hcovers
      exact hcovers _ (htotal.merge hpart) (by omega)

end Aggregation

namespace View

variable {w : View} {store : Store} {digest : Bytes → Bytes} {order : FieldOrder}

/-- **What the summary of a view covers**: the numbers among the values that the view shows in its
mode. -/
theorem Sound.covers_of_stats (h : w.Sound) (hregistry : w.schema.registry = .builtin digest order)
    (hsummary : w.top.valueType = .summary ↔ w.top.format = .summary)
    (hstore : store.Sound) (hsame : w.schema.registry = store.registry)
    (hkeys : KeepsKeys (Store.runOperators store.registry w.settings)) {s : Summary Float}
    (hs : w.stats store = .ok s) :
    ∃ (shown : List Entry) (values : List Value),
      w.scan store none w.top.mode = .ok (shown.map .ok) ∧
      List.Forall₂ (fun e v => w.decodeValue e.value = .ok v) shown values ∧
      ((values.filterMap Value.number?).length < 2 ^ 64 →
        s.Covers (values.filterMap Value.number?)) := by
  obtain ⟨made, hview, hs⟩ := bind_eq_ok.1 hs
  obtain ⟨items, hitems, hs⟩ := bind_eq_ok.1 hs
  obtain ⟨found, rfl⟩ := Aggregation.eq_map_ok_of_foldItems hs
  obtain ⟨keyCodec, valueCodec, value, hcodecs, hvalue, hcases⟩ :=
    exists_standsFor_of_aggregateView hregistry hsummary (by simp [Aggregation.summary]) hview
  obtain ⟨hmade, -, hmode, -⟩ := h.aggregateView_cases hview
  rw [hmode] at hitems
  obtain ⟨-, shown, hshown, hfound⟩ :=
    (h.scan_iff_partials hmade hstore hsame hkeys hvalue hcases).1 hitems
  obtain ⟨values, hvalues, hcovers⟩ := Aggregation.covers_foldItems hfound hs
  rw [h.flatten_partsOf hstore hkeys hshown] at hvalues
  -- the operator reads the values as the view does
  have hformat := (hcodecs namesNoCodec_nil (by simp [Aggregation.summary])).2
  refine ⟨shown, values, hshown, hvalues.imp fun e v hv => ?_, hcovers [] Summary.covers_empty⟩
  rw [decodeValue, hformat]
  exact mapError_eq_ok.2 hv

/-- **The count and the extremes of the summary of a view**, and the bytes of summaries.  The view
was derived in any way from the map of a store that is cut in any way and has been changed in any
way.  When there is a summary the view can be scanned in its mode and every value that it shows is
read; the summary counts the integers and doubles among these, NaNs too, and its extremes are
theirs: of those that are numbers the least and the greatest, infinities among them, or NaNs if none
is.  The count is held by 64 bits; a summary that keeps to them is read back from its bytes as it
was. -/
theorem stats_covers (digest : Bytes → Bytes) (order : FieldOrder) (layout : StoreLayout)
    (calls : List StoreCall) (schema : Schema) (hregistry : schema.registry = .builtin digest order)
    (steps : List Step) (v : View) (hview : (View.base schema).derived steps = .ok v) :
    let store := (Store.ofLayout layout (.builtin digest order)).run calls
    (∀ s, v.stats store = .ok s → ∃ (shown : List Entry) (values : List Value),
      v.scan store none v.top.mode = .ok (shown.map .ok) ∧
      List.Forall₂ (fun e value => v.decodeValue e.value = .ok value) shown values ∧
      ((values.filterMap Value.number?).length < 2 ^ 64 →
        s.Covers (values.filterMap Value.number?))) ∧
    (∀ s : Summary Float, s.count < 2 ^ 64 → readSummary (writeSummary s) = .ok s) := by
  intro store
  have hstore : store.Sound := Store.sound_run layout _ calls
  have hstoreRegistry : store.registry = .builtin digest order := Store.registry_run _ calls
  have hviewRegistry : v.schema.registry = .builtin digest order :=
    (schema_derived hview).symm ▸ hregistry
  refine ⟨fun s hs => ?_, fun s hcount => ?_⟩
  · exact ((Sound.base schema).derived hview).covers_of_stats hviewRegistry
      (summary_iff_of_derived hview) hstore (hviewRegistry.trans hstoreRegistry.symm)
      (keepsKeys_builtin hstoreRegistry v.settings) hs
  · rw [readSummary_writeSummary, Nat.mod_eq_of_lt hcount]

/-- One partition shows a NaN, one a text and one nothing; the others show a zero below zero, an
integer and infinity.  The NaN is counted and the text is not. -/
theorem stats_covers_nan :
    let key := Codec.LongWord.write
    let nan := Float.ofBits 0x7ff8000000000000
    let negativeZero := Float.ofBits 0x8000000000000000
    let infinity := Float.ofBits 0x7ff0000000000000
    let store := (Store.ofLayout ⟨[key 2, key 3, key 4, key 6], Limits.standard, none⟩
      (.builtin Sha256.digest)).run
      [.writeBatch [.put (key 1) (Codec.pack (.float nan)), .put (key 2) (Codec.pack (.text "a")),
        .put (key 4) (Codec.pack (.float negativeZero)), .put (key 5) (Codec.pack (.int 3)),
        .put (key 6) (Codec.pack (.float infinity))]]
    let schema : Schema := ⟨.long, .packed, Settings.standard, .builtin Sha256.digest⟩
    ∃ s, (View.base schema).stats store = .ok s ∧
      s.Covers [nan, negativeZero, Number.ofInt64 3, infinity] := by
  intro key nan negativeZero infinity store schema
  let entries : List Entry :=
    [⟨key 1, Codec.pack (.float nan), 1⟩, ⟨key 2, Codec.pack (.text "a"), 2⟩,
      ⟨key 4, Codec.pack (.float negativeZero), 3⟩, ⟨key 5, Codec.pack (.int 3), 4⟩,
      ⟨key 6, Codec.pack (.float infinity), 5⟩]
  let values : List Value :=
    [.float nan, .text "a", .float negativeZero, .int 3, .float infinity]
  have hsound : store.Sound := Store.sound_run _ _ _
  have hentries : store.contents.entries KeyRange.full .latest = entries := by decide +kernel
  have hfloat : ∀ x, Codec.packed.decode (Codec.pack (.float x)) = .ok (.float x) := by
    intro x
    rw [Codec.decode_pack (v := .float x) trivial trivial]
    exact Codec.givenBack_of_shallow (Nat.zero_le 1)
  have hreads : List.Forall₂ (fun e v => schema.valueCodec.decode e.value = .ok v)
      entries values :=
    .cons (hfloat nan) (.cons rfl (.cons (hfloat negativeZero) (.cons rfl
      (.cons (hfloat infinity) .nil))))
  have hruns : ∀ p ∈ store.partitions, ∀ id ∈ (Registry.builtin Sha256.digest).ids,
      p.runs id = true := by
    rw [Registry.ids_builtin]
    decide
  have hstats : ∃ s, (View.base schema).stats store = .ok s := by
    rw [exists_stats_iff hsound rfl (Store.registry_run _ _) hruns, hentries]
    exact ((List.forall₂_and_left _ _).1 (hreads.imp fun _ v hv => ⟨⟨v, hv⟩, hv⟩)).1
  obtain ⟨s, hs⟩ := hstats
  obtain ⟨hstats, -⟩ := stats_covers Sha256.digest .asRead
    ⟨[key 2, key 3, key 4, key 6], Limits.standard, none⟩ _ schema rfl [] (View.base schema) rfl
  obtain ⟨shown, found, hshown, hfound, hcovers⟩ := hstats s hs
  -- what is shown, and what is read of it, is what was put
  have hscan : (View.base schema).scan store none .latest = .ok (entries.map .ok) := by
    rw [scan_base hsound, hentries]
  obtain rfl : entries = shown :=
    List.map_injective_iff.2 (fun _ _ => Except.ok.inj) (Except.ok.inj (hscan.symm.trans hshown))
  have hunique : Relator.RightUnique fun (e : Entry) (v : Value) =>
      schema.valueCodec.decode e.value = .ok v :=
    fun _ _ _ hv hw => Except.ok.inj (hv.symm.trans hw)
  obtain rfl : values = found :=
    hunique.forall₂ hreads (hfound.imp fun _ _ hv => mapError_eq_ok.1 hv)
  exact ⟨s, hs, hcovers (by decide)⟩

end View

end Strata
