/-
**The operators that are always known.**

The registry of these operators holds each of them once, so what is known under a name is one of
them.  All but the aggregates look at one key at a time.

* `Registry.builtin_eq` — the operators, sorted by name;
* `Registry.find?_eq_some`, `Registry.build_eq_ok` — looking one up;
* `Registry.keyLocal_builtin` — **those that look at one key at a time**.
-/

import Strata.Proofs.Operator.KeyLocal

set_option relaxedAutoImplicit false
set_option autoImplicit false

namespace Strata.Registry

variable {digest : Bytes → Bytes} {order : FieldOrder}

/-- The operators that are always known, sorted by name. -/
theorem builtin_eq (digest : Bytes → Bytes) (order : FieldOrder) :
    builtin digest order =
      ⟨[⟨⟨"checksum", .aggregate, decodable, some .long⟩, checksumAll⟩,
        ⟨⟨"count", .aggregate, [], some .long⟩, countAll⟩,
        ⟨⟨"key_to_key", .transform, [], some .typed⟩, keyCopy order⟩,
        ⟨⟨"regex_filter", .filter, decodable, none⟩, patternFilter⟩,
        ⟨⟨"row_stats", .rowTransform, decodable, some .summary⟩, rowSummary⟩,
        ⟨⟨"sampling", .filter, [], none⟩, sampling digest⟩,
        ⟨⟨"stats", .aggregate, decodable, some .summary⟩, summarizeAll⟩]⟩ := by
  simp +decide only [builtin, builtinRegistrations, register, insertSorted, empty, List.foldl,
    if_true, if_false]

theorem ids_builtin (digest : Bytes → Bytes) (order : FieldOrder) : (builtin digest order).ids =
    ["checksum", "count", "key_to_key", "regex_filter", "row_stats", "sampling", "stats"] := by
  rw [builtin_eq]
  rfl

theorem descriptor_eq_ok {registry : Registry} {id : String} {d : Descriptor}
    (h : registry.descriptor id = .ok d) :
    ∃ r, registry.find? id = some r ∧ r.descriptor = d := by
  rw [descriptor] at h
  split at h
  · next r hr => exact ⟨r, hr, Except.ok.inj h⟩
  · cases h

theorem build_eq_ok {registry : Registry} {setting : Setting} {operator : Operator}
    (h : registry.build setting = .ok operator) :
    ∃ r, registry.find? setting.id = some r ∧ r.build setting.options = .ok operator := by
  rw [build] at h
  split at h
  · next r hr => exact ⟨r, hr, h⟩
  · cases h

theorem find?_eq_some {registry : Registry} {id : String} {r : Registration}
    (h : registry.find? id = some r) : r ∈ registry.registrations ∧ r.descriptor.id = id :=
  ⟨List.mem_of_find?_eq_some h, by simpa using List.find?_some h⟩

/-- **Every operator but the aggregates looks at one key at a time.** -/
theorem keyLocal_builtin {setting : Setting} {operator : Operator}
    (hbuild : (builtin digest order).build setting = .ok operator)
    (hrole : ∀ d, (builtin digest order).descriptor setting.id = .ok d → d.kind ≠ .aggregate) :
    KeyLocal operator := by
  obtain ⟨r, hfind, hr⟩ := build_eq_ok hbuild
  have hkind : r.descriptor.kind ≠ .aggregate := hrole _ (by rw [descriptor, hfind])
  have hmem := (find?_eq_some hfind).1
  rw [builtin_eq] at hmem
  simp only [List.mem_cons, List.not_mem_nil, or_false] at hmem
  rcases hmem with rfl | rfl | rfl | rfl | rfl | rfl | rfl
  · exact absurd rfl hkind
  · exact absurd rfl hkind
  · exact keyLocal_keyCopy hr
  · exact keyLocal_patternFilter hr
  · exact keyLocal_rowSummary hr
  · exact keyLocal_sampling hr
  · exact absurd rfl hkind

end Strata.Registry
