/-
**What is written of all versions of a view.**

The loop that writes the lines remembers the last key and how many lines it got, and tells a new key
by comparing it with the last one as both are read.  A scan returns the versions of a key one after
another, so this is a limit for every stored key wherever that comparison tells the bytes apart: of
neighbouring entries the keys are equal as they are read if the bytes are the same, and otherwise
they are not.  A key that holds a NaN does not equal itself, and none of its versions is left out.

* `View.cut` — the first so many of a list, or all of it;
* `View.capped_rows` — what the loop leaves of one row after another;
* `View.TellsKeys`, `View.tellsKeys_of_encodes` — **where comparing keys tells the bytes apart**;
* `View.dump_by_key` — **what is written**.
-/

import Strata.Proofs.Value.Equality
import Strata.Proofs.View.StoredKeys
import Strata.View.Text

set_option relaxedAutoImplicit false
set_option autoImplicit false

namespace Strata.View

/-! ### The loop -/

/-- The first so many of a list, or all of it if there is no limit. -/
def cut {α : Type} : Option Nat → List α → List α
  | none, xs => xs
  | some max, xs => xs.take max

theorem map_cut {α β : Type} (f : α → β) (max : Option Nat) (xs : List α) :
    (cut max xs).map f = cut max (xs.map f) := by
  cases max with
  | none => rfl
  | some max => exact List.map_take

variable {key : Option Value} {k : Value} {d : DecodedEntry} {row : List DecodedEntry}

/-- Without a limit nothing is left out. -/
theorem capped_none (key : Option Value) (written : Nat)
    (items : List (Except MapError DecodedEntry)) : capped none key written items = items := by
  induction items generalizing key written with
  | nil => rfl
  | cons item items ih =>
      cases item with
      | error e => rw [capped, ih]
      | ok d => simp [capped, ih]

/-- Of entries whose keys equal the last key, as many get a line as are left of the limit. -/
theorem capped_same (max : Nat) (h : ∀ d ∈ row, (k == d.key) = true) (written : Nat)
    (rest : List (Except MapError DecodedEntry)) :
    ∃ total, capped (some max) (some k) written (row.map .ok ++ rest) =
      (row.take (max - written)).map .ok ++ capped (some max) (some k) total rest := by
  induction row generalizing written with
  | nil => exact ⟨written, by simp⟩
  | cons d row ih =>
      obtain ⟨hd, hrow⟩ := List.forall_mem_cons.1 h
      by_cases hlt : written < max
      · obtain ⟨total, htotal⟩ := ih hrow (written + 1)
        have hleft : max - written = max - (written + 1) + 1 := by omega
        exact ⟨total, by simp [capped, hd, hlt, htotal, hleft]⟩
      · obtain ⟨total, htotal⟩ := ih hrow written
        have hleft : max - written = 0 := by omega
        rw [hleft] at htotal
        exact ⟨total, by simp [capped, hd, hlt, htotal, hleft]⟩

/-- A key that does not equal the last one begins a row, of which the first entries get a line. -/
theorem capped_row (max : Nat) (hnew : ∀ k, key = some k → (k == d.key) = false)
    (hsame : ∀ x ∈ row, (d.key == x.key) = true) (written : Nat)
    (rest : List (Except MapError DecodedEntry)) :
    ∃ total, capped (some max) key written ((d :: row).map .ok ++ rest) =
      ((d :: row).take max).map .ok ++ capped (some max) (some d.key) total rest := by
  have hkey : (key.any fun k => k == d.key) = false := by
    cases key with
    | none => rfl
    | some k => exact hnew k rfl
  cases max with
  | zero =>
      obtain ⟨total, htotal⟩ := capped_same 0 hsame 0 rest
      rw [Nat.sub_self, List.take_zero] at htotal
      exact ⟨total, by simpa [capped, hkey] using htotal⟩
  | succ max =>
      obtain ⟨total, htotal⟩ := capped_same (max + 1) hsame 1 rest
      rw [Nat.add_sub_cancel] at htotal
      exact ⟨total, by simpa [capped, hkey] using htotal⟩

/-- The entries of a row have equal keys. -/
def IsRow (row : List DecodedEntry) : Prop :=
  ∃ d others, row = d :: others ∧ ∀ x ∈ others, (d.key == x.key) = true

/-- The keys of two rows differ. -/
def Differ (row next : List DecodedEntry) : Prop :=
  ∀ d ∈ row.head?, ∀ d' ∈ next.head?, (d.key == d'.key) = false

/-- **The loop leaves the first entries of every row.** -/
theorem capped_rows (max : Nat) (key : Option Value) {rows : List (List DecodedEntry)}
    (hrows : ∀ row ∈ rows, IsRow row) (hdiffer : rows.IsChain Differ)
    (hnew : ∀ k, key = some k → ∀ row ∈ rows.head?, ∀ d ∈ row.head?, (k == d.key) = false)
    (written : Nat) :
    capped (some max) key written (rows.flatten.map .ok) =
      (rows.flatMap (cut (some max))).map .ok := by
  induction rows generalizing key written with
  | nil => rfl
  | cons row rows ih =>
      obtain ⟨⟨d, others, rfl, hsame⟩, hrest⟩ := List.forall_mem_cons.1 hrows
      obtain ⟨hnext, hothers⟩ := List.isChain_cons.1 hdiffer
      obtain ⟨total, htotal⟩ := capped_row max (fun k hk => hnew k hk _ rfl d rfl) hsame
        written (rows.flatten.map .ok)
      rw [List.flatten_cons, List.map_append, htotal, List.flatMap_cons, List.map_append,
        ih _ hrest hothers]
      · rfl
      · rintro _ ⟨⟩ next hhead d' hd'
        exact hnext next hhead d rfl d' hd'

/-- The lines of entries are written one after another if there is room for all of them. -/
theorem pour_eq {room : Option Nat} {text : String} {entries : List DecodedEntry}
    (hroom : ∀ limit, room = some limit →
      (text ++ String.join (entries.map dumpLine)).utf8ByteSize ≤ limit) :
    pour room text (entries.map .ok) = .ok (text ++ String.join (entries.map dumpLine)) := by
  induction entries generalizing text with
  | nil => simp [pour]
  | cons d entries ih =>
      rw [List.map_cons, String.join_cons, ← String.append_assoc] at hroom
      have hone : (room.all fun limit => decide ((text ++ dumpLine d).utf8ByteSize ≤ limit)) =
          true := by
        cases room with
        | none => rfl
        | some limit =>
            have hall := hroom limit rfl
            rw [String.utf8ByteSize_append] at hall
            exact decide_eq_true (by omega)
      rw [List.map_cons, pour, if_pos hone, ih hroom, List.map_cons, String.join_cons,
        String.append_assoc]

/-! ### Keys as they are read -/

/-- The keys of two entries are equal as they are read if their bytes are the same, and otherwise
they are not. -/
def Tells (v : View) (e next : Entry) : Prop :=
  ∀ k k', v.decodeKey e.key = .ok k → v.decodeKey next.key = .ok k' →
    ((k == k') = true ↔ e.key = next.key)

/-- The keys of neighbouring entries are told apart by what is read of them. -/
def TellsKeys (v : View) (entries : List Entry) : Prop := entries.IsChain v.Tells

section TellsKeys

variable {v : View} {entries next : List Entry} {f : Entry → DecodedEntry}

/-- **Keys are told apart** if the codec writes them again as they were written, no zero in them has
a sign, and no NaN occurs in them. -/
theorem tellsKeys_of_encodes (h : ∀ e ∈ entries, ∃ k, v.schema.keyCodec.Encodes k e.key ∧
    ¬ v.schema.keyCodec.LosesSign k ∧ ∀ w, v.decodeKey e.key = .ok w →
      w.PlainZeros ∧ ∀ x, Value.Within (.float x) w → x.isNaN = false) : v.TellsKeys entries := by
  refine (List.pairwise_of_forall_mem_list fun e he e' he' w w' hw hw' => ?_).isChain
  obtain ⟨k, hk, hkept, hplain⟩ := h e he
  obtain ⟨k', hk', hkept', hplain'⟩ := h e' he'
  have hdecode := mapError_eq_ok.1 hw
  have hdecode' := mapError_eq_ok.1 hw'
  constructor
  · intro hequal
    exact hk.inj_of_equal hk' hkept hkept' hdecode hdecode' hequal (hplain w hw).1
      (hplain' w' hw').1
  · intro hbytes
    obtain rfl : w = w' := Except.ok.inj (hw.symm.trans (hbytes ▸ hw'))
    exact (Value.equal_self_iff (Codec.namesDistinct_of_decode hdecode)).2 (hplain w hw).2

/-- Entries of the same bytes are shown with the same key. -/
theorem key_eq_of_decodeEntry {e e' : Entry} {d d' : DecodedEntry} (hd : v.decodeEntry e = .ok d)
    (hd' : v.decodeEntry e' = .ok d') (h : e.key = e'.key) : d.key = d'.key := by
  have hkey := (decodeEntry_eq_ok hd).1
  rw [h, (decodeEntry_eq_ok hd').1] at hkey
  exact (Except.ok.inj hkey).symm

theorem Tells.iff {e e' : Entry} {d d' : DecodedEntry} (h : v.Tells e e')
    (hd : v.decodeEntry e = .ok d) (hd' : v.decodeEntry e' = .ok d') :
    (d.key == d'.key) = true ↔ e.key = e'.key :=
  h _ _ (mapError_eq_ok.2 (decodeEntry_eq_ok hd).1) (mapError_eq_ok.2 (decodeEntry_eq_ok hd').1)

/-- The entries of one key are a row for the loop. -/
theorem isRow_map {key : Bytes} (hne : entries ≠ []) (hkey : ∀ e ∈ entries, e.key = key)
    (hread : ∀ e ∈ entries, v.decodeEntry e = .ok (f e)) (h : v.TellsKeys entries) :
    IsRow (entries.map f) := by
  obtain ⟨e, others, rfl⟩ := List.exists_cons_of_ne_nil hne
  obtain ⟨hfirst, hothers⟩ := List.forall_mem_cons.1 hread
  refine ⟨f e, others.map f, rfl, fun x hx => ?_⟩
  obtain ⟨e', he', rfl⟩ := List.mem_map.1 hx
  have hsame : ∀ x ∈ others, e.key = x.key := by
    intro x hx
    rw [hkey e List.mem_cons_self, hkey x (List.mem_cons_of_mem _ hx)]
  cases others with
  | nil => cases he'
  | cons second others =>
      -- the second entry is a neighbour of the first, and all others are shown with its key
      have hsecond := (List.isChain_cons_cons.1 h).1.iff hfirst (hothers second List.mem_cons_self)
      rw [key_eq_of_decodeEntry (hothers e' he') (hothers second List.mem_cons_self)
        ((hsame e' he').symm.trans (hsame second List.mem_cons_self))]
      exact hsecond.2 (hsame second List.mem_cons_self)

/-- The entries of two keys are different rows for the loop. -/
theorem differ_map {key other : Bytes} (hne : key ≠ other) (hkey : ∀ e ∈ entries, e.key = key)
    (hother : ∀ e ∈ next, e.key = other) (hread : ∀ e ∈ entries, v.decodeEntry e = .ok (f e))
    (hreadNext : ∀ e ∈ next, v.decodeEntry e = .ok (f e))
    (h : ∀ e ∈ entries.getLast?, ∀ e' ∈ next.head?, v.Tells e e') :
    Differ (entries.map f) (next.map f) := by
  intro d hd d' hd'
  rw [List.head?_map] at hd hd'
  obtain ⟨e, he, rfl⟩ := Option.map_eq_some_iff.1 hd
  obtain ⟨e', he', rfl⟩ := Option.map_eq_some_iff.1 hd'
  have hmem := List.mem_of_head? he
  have hmem' := List.mem_of_head? he'
  -- the last entry of the first row is the neighbour, and its key is shown as that of the first
  obtain ⟨last, hlast⟩ := Option.isSome_iff_exists.1
    (List.getLast?_isSome.2 (List.ne_nil_of_mem hmem))
  have hlastMem := List.mem_of_getLast? hlast
  rw [key_eq_of_decodeEntry (hread e hmem) (hread last hlastMem)
    ((hkey e hmem).trans (hkey last hlastMem).symm), Bool.eq_false_iff]
  intro hequal
  refine hne ?_
  rw [← hkey last hlastMem, ← hother e' hmem']
  exact ((h last hlast e' he').iff (hread last hlastMem) (hreadNext e' hmem')).1 hequal

end TellsKeys

/-! ### What is written -/

theorem cut_subset {α : Type} (max : Option Nat) (xs : List α) : cut max xs ⊆ xs := by
  cases max with
  | none => exact fun _ => id
  | some max => exact List.take_subset max xs

section Loop

variable {v : View} {found : List Entry} {f : Entry → DecodedEntry}

/-- What the loop leaves of entries in order, key by key. -/
theorem capped_by_key (hasc : Ascending found) (hread : ∀ e ∈ found, v.decodeEntry e = .ok (f e))
    (htells : v.TellsKeys found) (max : Nat) :
    capped (some max) none 0 ((found.map f).map .ok) =
      (((rows found).flatMap (cut (some max))).map f).map .ok := by
  obtain ⟨keys, hkeys, -, hrows⟩ := rows_by_key hasc
  obtain ⟨hne, hflatten⟩ := rows_spec found
  have hkey : ∀ key, ∀ e ∈ found.filter (fun e => e.key == key), e.key = key :=
    fun key e he => by simpa using (List.mem_filter.1 he).2
  have hreadKey : ∀ key, ∀ e ∈ found.filter (fun e => e.key == key), v.decodeEntry e = .ok (f e) :=
    fun key e he => hread e (List.mem_filter.1 he).1
  rw [TellsKeys, ← hflatten, List.isChain_flatten fun h => hne _ h rfl] at htells
  obtain ⟨hwithin, hbetween⟩ := htells
  have hrow : ∀ row ∈ (rows found).map (List.map f), IsRow row := by
    intro row hrow
    obtain ⟨entries, hentries, rfl⟩ := List.mem_map.1 hrow
    have hnonempty := hne entries hentries
    have hchain := hwithin entries hentries
    rw [hrows] at hentries
    obtain ⟨key, -, rfl⟩ := List.mem_map.1 hentries
    exact isRow_map hnonempty (hkey key) (hreadKey key) hchain
  have hdiffer : ((rows found).map (List.map f)).IsChain Differ := by
    rw [hrows, List.isChain_map] at hbetween ⊢
    rw [List.isChain_map]
    refine List.isChain_iff_getElem.2 fun i hi => ?_
    have hlt := List.isChain_iff_getElem.1 hkeys.isChain i hi
    exact differ_map hlt.ne (hkey _) (hkey _) (hreadKey _) (hreadKey _)
      (List.isChain_iff_getElem.1 hbetween i hi)
  have hcapped := capped_rows max none hrow hdiffer nofun 0
  rw [← List.map_flatten, hflatten] at hcapped
  rw [hcapped, List.flatMap_map]
  congr 1
  rw [List.map_flatMap]
  simp only [map_cut]

/-- What entries are decoded to, as a function of the entry. -/
theorem exists_decoded {decoded : List DecodedEntry}
    (h : found.map v.decodeEntry = decoded.map .ok) :
    ∃ f : Entry → DecodedEntry, (∀ e ∈ found, v.decodeEntry e = .ok (f e)) ∧
      decoded = found.map f := by
  let f (e : Entry) : DecodedEntry := (v.decodeEntry e).toOption.getD ⟨.null, .null, 0⟩
  have hread : ∀ e ∈ found, v.decodeEntry e = .ok (f e) := by
    intro e he
    have hmem : v.decodeEntry e ∈ decoded.map .ok := h ▸ List.mem_map_of_mem he
    obtain ⟨d, -, hd⟩ := List.mem_map.1 hmem
    simp only [f, ← hd, Except.toOption, Option.getD_some]
  refine ⟨f, hread, map_ok_injective (h.symm.trans ?_)⟩
  rw [List.map_map]
  exact List.map_congr_left hread

/-- Whether there is a limit or none, the loop leaves the first entries of every row. -/
theorem capped_found (hasc : Ascending found) (hread : ∀ e ∈ found, v.decodeEntry e = .ok (f e))
    {max : Option Nat} (htells : max = none ∨ v.TellsKeys found) :
    capped max none 0 ((found.map f).map .ok) =
      (((rows found).flatMap (cut max)).map f).map .ok := by
  cases max with
  | none =>
      have hall : (rows found).flatMap (cut none) = found :=
        List.flatMap_id.trans (rows_spec found).2
      rw [capped_none, hall]
  | some max =>
      exact capped_by_key hasc hread (htells.resolve_left nofun) max

end Loop

/-- **What is written of all versions of a view.**  The view was derived in any way from the map of
a store that has been changed in any way, and all versions that it shows are read.  Without a limit,
and with one wherever the keys of neighbouring entries are told apart by what is read of them, there
is one line for each of the first entries of every key, newest first, in the order of the keys, and
nothing else, if there is room for it.  Keys are told apart where the codec writes them again as
they were written, no zero in them has a sign, and no NaN occurs in them. -/
theorem dump_by_key (digest : Bytes → Bytes) (order : FieldOrder) (layout : StoreLayout)
    (calls : List StoreCall) (schema : Schema) (steps : List Step) (v : View)
    (hview : (View.base schema).derived steps = .ok v) (found : List Entry)
    (decoded : List DecodedEntry) :
    let store := (Store.ofLayout layout (.builtin digest order)).run calls
    let versions (key : Bytes) : List Entry := found.filter fun e => e.key == key
    v.scan store none .allVersions = .ok (found.map .ok) →
    found.map v.decodeEntry = decoded.map .ok →
    v.multiEntries store = .ok (decoded.map .ok) ∧
    (∃ keys : List Bytes, keys.Pairwise (· < ·) ∧ (∀ key, key ∈ keys ↔ ∃ e ∈ found, e.key = key) ∧
      found = keys.flatMap versions ∧
      (∀ key, (versions key).Pairwise fun a b => b.timestamp < a.timestamp) ∧
      ∀ max : Option Nat, max = none ∨ v.TellsKeys found → ∃ lines : List DecodedEntry,
        (keys.flatMap fun key => cut max (versions key)).map v.decodeEntry = lines.map .ok ∧
        ∀ room : Option Nat,
          (∀ limit, room = some limit → (String.join (lines.map dumpLine)).utf8ByteSize ≤ limit) →
          v.dumpMulti store max room = .ok (String.join (lines.map dumpLine))) ∧
    ((∀ e ∈ found, ∃ k, v.schema.keyCodec.Encodes k e.key ∧ ¬ v.schema.keyCodec.LosesSign k ∧
      ∀ w, v.decodeKey e.key = .ok w →
        w.PlainZeros ∧ ∀ x, Value.Within (.float x) w → x.isNaN = false) → v.TellsKeys found) := by
  intro store versions hfound hdecoded
  have hstore : store.Sound := Store.sound_run layout _ calls
  have hstoreRegistry : store.registry = .builtin digest order := Store.registry_run _ calls
  have h : v.Sound := (Sound.base schema).derived hview
  have hbefore := h.pairwise_before_scan hstore hstoreRegistry hfound
  have hasc : Ascending found := List.pairwise_map.2 <| hbefore.imp fun hab =>
    hab.elim le_of_lt fun hsame => hsame.1.le
  obtain ⟨f, hread, rfl⟩ := exists_decoded hdecoded
  obtain ⟨keys, hkeys, hmem, hrows⟩ := rows_by_key hasc
  have hflatten : found = keys.flatMap versions := by
    rw [← (rows_spec found).2, hrows, List.flatMap_def]
  refine ⟨?_, ⟨keys, hkeys, hmem, hflatten, pairwise_newest_first hbefore, fun max htells => ?_⟩,
    tellsKeys_of_encodes⟩
  · rw [multiEntries_of_scan hfound, hdecoded]
  · have hchosen : (keys.flatMap fun key => cut max (versions key)) =
        (rows found).flatMap (cut max) := by
      rw [hrows, List.flatMap_map]
    refine ⟨((rows found).flatMap (cut max)).map f, ?_, fun room hroom => ?_⟩
    · rw [hchosen, List.map_map]
      refine List.map_congr_left fun e he => hread e ?_
      obtain ⟨row, hrow, he⟩ := List.mem_flatMap.1 he
      rw [← (rows_spec found).2]
      exact List.mem_flatten_of_mem hrow (cut_subset max row he)
    · have hitems : (found.map Except.ok).map v.decodeItem = (found.map f).map .ok := by
        rw [← hdecoded, List.map_map]
        rfl
      rw [dumpMulti, hfound]
      show pour room "" (capped max none 0 ((found.map Except.ok).map v.decodeItem)) = _
      rw [hitems, capped_found hasc hread htells, pour_eq (by simpa using hroom),
        String.empty_append]

/-- Two versions of one key and one of another, over two partitions, with one line for each key. -/
theorem dump_by_key_long :
    let one := Codec.LongWord.write 1
    let two := Codec.LongWord.write 2
    let store := (Store.ofLayout ⟨[two], Limits.standard, some 2⟩ (.builtin id)).run
      [.writeBatch [.put two one, .put one two, .put one one]]
    let v := View.base ⟨.long, .long, Settings.standard, .builtin id⟩
    v.dumpMulti store (some 1) none = .ok "k = 1 : v = 1\nk = 2 : v = 1\n" := by
  intro one two store v
  have hstore : store =
      ⟨[⟨none, some two, [(one, ⟨⟨one, 3⟩, [⟨two, 2⟩]⟩)], (Registry.builtin id).ids⟩,
        ⟨some two, none, [(two, ⟨⟨one, 1⟩, []⟩)], (Registry.builtin id).ids⟩],
        .builtin id, Limits.standard, some 2, 3⟩ := rfl
  let found : List Entry := [⟨one, one, 3⟩, ⟨one, two, 2⟩, ⟨two, one, 1⟩]
  have hfound : v.scan store none .allVersions = .ok (found.map .ok) := by
    rw [hstore, Registry.builtin_eq]
    rfl
  have hdecoded : found.map v.decodeEntry =
      [⟨.int 1, .int 1, 3⟩, ⟨.int 1, .int 2, 2⟩, ⟨.int 2, .int 1, 1⟩].map .ok := rfl
  obtain ⟨-, ⟨keys, hsorted, hmem, -, -, hwritten⟩, htells⟩ :=
    dump_by_key id .asRead _ _ _ [] v rfl found _ hfound hdecoded
  have hlong : ∀ n : Int64, Codec.long.Encodes (.int n) (Codec.LongWord.write n) :=
    fun n => ⟨trivial, trivial, rfl⟩
  have hkeys : keys = [one, two] := by
    refine hsorted.eq_of_mem_iff (by decide) fun key => ?_
    rw [hmem]
    simp [found, eq_comm]
  have htold : v.TellsKeys found := by
    refine htells fun e he => ?_
    have hkey : ∃ n : Int64, e.key = Codec.LongWord.write n := by
      simp only [found, List.mem_cons, List.not_mem_nil, or_false] at he
      rcases he with rfl | rfl | rfl
      · exact ⟨1, rfl⟩
      · exact ⟨1, rfl⟩
      · exact ⟨2, rfl⟩
    obtain ⟨n, hn⟩ := hkey
    refine ⟨.int n, hn ▸ hlong n, not_false, fun w hw => ?_⟩
    rw [hn] at hw
    have hread := (mapError_eq_ok.1 hw).symm.trans (Codec.LongWord.decode_write n)
    obtain rfl := Except.ok.inj hread
    exact ⟨trivial, nofun⟩
  obtain ⟨lines, hlines, htext⟩ := hwritten (some 1) (Or.inr htold)
  obtain rfl : [⟨.int 1, .int 1, 3⟩, ⟨.int 2, .int 1, 1⟩] = lines := by
    refine map_ok_injective (Eq.trans ?_ hlines)
    rw [hkeys]
    rfl
  exact htext none nofun

/-- Two versions of a NaN: it does not equal itself, so each of them begins to count anew, and with
a limit of one line both are written. -/
theorem dump_not_by_key :
    let nan := Float.ofBits 0x7ff8000000000000
    let key : Bytes := [0, 0x6f, 0x81, 0xa5, 0x46, 0x6c, 0x6f, 0x61, 0x74, 0xcb, 0x7f, 0xf8,
      0, 0, 0, 0, 0, 0]
    let store := (Store.ofLayout ⟨[], Limits.standard, none⟩ (.builtin id)).run
      [.writeBatch [.put key (Codec.FixedPoint.encode (.int 1))],
        .writeBatch [.put key (Codec.FixedPoint.encode (.int 2))]]
    let v := View.base ⟨.fixedPoint, .fixedPoint, Settings.standard, .builtin id⟩
    let found : List Entry :=
      [⟨key, Codec.FixedPoint.encode (.int 2), 2⟩, ⟨key, Codec.FixedPoint.encode (.int 1), 1⟩]
    Codec.FixedPoint.encode (.float nan) = key ∧
      v.scan store none .allVersions = .ok (found.map .ok) ∧
      found.map v.decodeEntry = [⟨.float nan, .int 2, 2⟩, ⟨.float nan, .int 1, 1⟩].map .ok ∧
      v.dumpMulti store (some 1) none = .ok "k = NaN : v = 2\nk = NaN : v = 1\n" := by
  intro nan key store v found
  have hstore : store = ⟨[⟨none, none, [(key, ⟨⟨Codec.FixedPoint.encode (.int 2), 2⟩,
      [⟨Codec.FixedPoint.encode (.int 1), 1⟩]⟩)], (Registry.builtin id).ids⟩],
      .builtin id, Limits.standard, none, 2⟩ := rfl
  have hfound : v.scan store none .allVersions = .ok (found.map .ok) := by
    rw [hstore, Registry.builtin_eq]
    rfl
  have hdecoded : found.map v.decodeEntry =
      [⟨.float nan, .int 2, 2⟩, ⟨.float nan, .int 1, 1⟩].map .ok := by
    rfl
  refine ⟨by decide, hfound, hdecoded, ?_⟩
  rw [dumpMulti, hfound]
  rfl

end Strata.View
