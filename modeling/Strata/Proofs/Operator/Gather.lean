/-
**What aggregates leave of a partition.**

A built-in aggregate gathers the entries of a partition into one, which has the key of the last of
them, and leaves nothing of nothing.  It fails exactly when one of the entries cannot be read, so it
fails on no part of what it gathers as a whole.  Like all other built-in operators it makes entries
of no new keys, in their order.

* `EntrywiseSafe`, `exists_foldlM_iff` — failing for the sake of one entry;
* `exists_hashes_iff`, `exists_summary_iff` — when hash codes and summaries can be had;
* `Registry.gather_of_build` — **the built-in aggregates**;
* `Registry.keepsKeys_builtin` — **no built-in operator makes up keys**.
-/

import Strata.Proofs.Operator.Builtin

set_option relaxedAutoImplicit false
set_option autoImplicit false

namespace Strata

/-! ### Failing for the sake of one entry -/

/-- The value can be had exactly when every entry is good, whatever stands next to it. -/
def EntrywiseSafe (value : List Entry → Except OperatorError Bytes) : Prop :=
  ∃ good : Entry → Prop, ∀ entries, (∃ bytes, value entries = .ok bytes) ↔ ∀ e ∈ entries, good e

/-- What can be had of entries can be had of a part of them. -/
theorem EntrywiseSafe.filter {value : List Entry → Except OperatorError Bytes}
    (h : EntrywiseSafe value) {entries : List Entry} {bytes : Bytes}
    (hvalue : value entries = .ok bytes) (keep : Entry → Bool) :
    ∃ part, value (entries.filter keep) = .ok part := by
  obtain ⟨good, hgood⟩ := h
  have hall : ∀ e ∈ entries, good e := (hgood entries).1 ⟨bytes, hvalue⟩
  refine (hgood _).2 ?_
  intro e he
  exact hall e (List.mem_filter.1 he).1

section Folds

variable {α β ε : Type} {f : β → α → Except ε β} {good : α → Prop}

/-- A fold whose steps fail on account of what is folded alone. -/
theorem exists_foldlM_iff (h : ∀ b x, (∃ c, f b x = .ok c) ↔ good x) (b : β) (xs : List α) :
    (∃ c, xs.foldlM f b = .ok c) ↔ ∀ x ∈ xs, good x := by
  induction xs generalizing b with
  | nil => exact ⟨fun _ => by simp, fun _ => ⟨b, rfl⟩⟩
  | cons x xs ih =>
      rw [List.forall_mem_cons, List.foldlM_cons, ← h b x]
      constructor
      · rintro ⟨c, hc⟩
        obtain ⟨next, hnext, hc⟩ := bind_eq_ok.1 hc
        exact ⟨⟨next, hnext⟩, (ih next).1 ⟨c, hc⟩⟩
      · rintro ⟨⟨next, hnext⟩, hrest⟩
        obtain ⟨c, hc⟩ := (ih next).2 hrest
        exact ⟨c, bind_eq_ok.2 ⟨next, hnext, hc⟩⟩

/-- Turning what was found into bytes does not fail. -/
theorem exists_map_iff {x : Except ε α} {g : α → β} :
    (∃ c, x.map g = .ok c) ↔ ∃ a, x = .ok a := by
  cases x <;> simp [Except.map]

end Folds

/-- Hash codes can be added up when all keys and values can be read. -/
theorem exists_hashes_iff (keyCodec valueCodec : Codec) (entries : List Entry) :
    (∃ bytes, ((entries.foldlM (addHashes keyCodec valueCodec) Checksum.empty).map fun c =>
        Codec.LongWord.write c.packed.toInt64) = .ok bytes) ↔
      ∀ e ∈ entries, ∃ key value, OperatorError.ofCodec (keyCodec.decode e.key) = .ok key ∧
        OperatorError.ofCodec (valueCodec.decode e.value) = .ok value := by
  rw [exists_map_iff]
  refine exists_foldlM_iff ?_ _ entries
  intro c e
  constructor
  · rintro ⟨next, h⟩
    obtain ⟨key, hkey, h⟩ := bind_eq_ok.1 h
    obtain ⟨value, hvalue, -⟩ := bind_eq_ok.1 h
    exact ⟨key, value, hkey, hvalue⟩
  · rintro ⟨key, value, hkey, hvalue⟩
    exact ⟨_, bind_eq_ok.2 ⟨key, hkey, bind_eq_ok.2 ⟨value, hvalue, rfl⟩⟩⟩

/-- Numbers can be summarized when all values can be read. -/
theorem exists_summary_iff (codec : Codec) (entries : List Entry) :
    (∃ bytes, ((summarize codec entries).map writeSummary) = .ok bytes) ↔
      ∀ e ∈ entries, ∃ value, OperatorError.ofCodec (codec.decode e.value) = .ok value := by
  rw [exists_map_iff]
  refine exists_foldlM_iff ?_ _ entries
  intro s e
  constructor
  · rintro ⟨next, h⟩
    obtain ⟨value, hvalue, -⟩ := bind_eq_ok.1 h
    exact ⟨value, hvalue⟩
  · rintro ⟨value, hvalue⟩
    exact ⟨_, bind_eq_ok.2 ⟨value, hvalue, rfl⟩⟩

/-! ### The aggregates -/

/-- **A built-in aggregate gathers** the entries of a partition, and fails on account of single
entries only. -/
theorem Registry.gather_of_build {digest : Bytes → Bytes} {order : FieldOrder} {registry : Registry}
    {setting : Setting} {operator : Operator} (hid : setting.id ∈ ["count", "checksum", "stats"])
    (hfind : registry.find? setting.id = (Registry.builtin digest order).find? setting.id)
    (hbuild : registry.build setting = .ok operator) :
    ∃ value, operator = gather value ∧ EntrywiseSafe value := by
  obtain ⟨r, hr, hbuild⟩ := build_eq_ok hbuild
  rw [hfind, builtin_eq] at hr
  simp only [List.mem_cons, List.not_mem_nil, or_false] at hid
  rcases hid with hid | hid | hid <;> rw [hid] at hr <;> obtain rfl := Option.some.inj hr
  · exact ⟨_, (Except.ok.inj hbuild).symm, fun _ => True, by simp⟩
  · obtain ⟨keyCodec, -, hbuild⟩ := bind_eq_ok.1 hbuild
    obtain ⟨valueCodec, -, hbuild⟩ := bind_eq_ok.1 hbuild
    exact ⟨_, (Except.ok.inj hbuild).symm, _, exists_hashes_iff keyCodec valueCodec⟩
  · obtain ⟨codec, -, hbuild⟩ := bind_eq_ok.1 hbuild
    exact ⟨_, (Except.ok.inj hbuild).symm, _, exists_summary_iff codec⟩

section Gather

variable {value : List Entry → Except OperatorError Bytes} {entries out : List Entry}

theorem gather_nil : gather value [] = .ok [] := rfl

/-- What is left has the key of the last entry. -/
theorem gather_eq_ok (h : gather value entries = .ok out) :
    (entries = [] ∧ out = []) ∨
      ∃ last bytes, entries.getLast? = some last ∧ value entries = .ok bytes ∧
        out = [{ last with value := bytes }] := by
  rw [gather] at h
  split at h
  · next hlast =>
    exact Or.inl ⟨List.getLast?_eq_none_iff.1 hlast, (Except.ok.inj h).symm⟩
  · next last hlast =>
    cases hvalue : value entries with
    | error e => simp [hvalue, Except.map] at h
    | ok bytes =>
        rw [hvalue] at h
        exact Or.inr ⟨last, bytes, hlast, rfl, (Except.ok.inj h).symm⟩

theorem gather_of_value {bytes : Bytes} (h : value entries = .ok bytes) :
    ∃ out, gather value entries = .ok out := by
  rw [gather, h]
  cases entries.getLast? with
  | none => exact ⟨[], rfl⟩
  | some last => exact ⟨[{ last with value := bytes }], rfl⟩

end Gather

/-! ### Operators that make up no keys -/

theorem keepsKeys_gather (value : List Entry → Except OperatorError Bytes) :
    KeepsKeys (gather value) := by
  intro entries out _ hout
  rcases gather_eq_ok hout with ⟨-, rfl⟩ | ⟨last, bytes, hlast, -, rfl⟩
  · exact ⟨ascending_nil, by simp⟩
  · refine ⟨List.pairwise_singleton .., fun e he => ?_⟩
    obtain rfl := List.mem_singleton.1 he
    exact ⟨last, List.mem_of_getLast? hlast, rfl⟩

/-- **No built-in operator makes up keys.** -/
theorem Registry.keepsKeys_builtin {digest : Bytes → Bytes} {order : FieldOrder} {setting : Setting}
    {operator : Operator} (hbuild : (builtin digest order).build setting = .ok operator) :
    KeepsKeys operator := by
  by_cases hid : setting.id ∈ ["count", "checksum", "stats"]
  · obtain ⟨value, rfl, -⟩ := gather_of_build hid rfl hbuild
    exact keepsKeys_gather value
  · refine (keyLocal_builtin hbuild ?_).keepsKeys
    intro d hd
    obtain ⟨r, hfind, rfl⟩ := descriptor_eq_ok hd
    obtain ⟨hmem, heq⟩ := find?_eq_some hfind
    rw [← heq] at hid
    rw [builtin_eq] at hmem
    simp only [List.mem_cons, List.not_mem_nil, or_false] at hmem
    rcases hmem with rfl | rfl | rfl | rfl | rfl | rfl | rfl <;> simp_all

end Strata
