/-
**Operators on entries that can be read.**

An entry is readable when its key is read, as a value that can be read again once it is written, and
its value can be read in a given way.  An operator that is given the codecs by which the entries
below it are read never fails on readable entries, and what it returns is readable again, if its
values are read in the way that goes with the operator: by the codec of the keys where they were
copied, as integers of eight bytes behind a count or a checksum, as summaries behind the others.

* `Entry.Readable` — entries that can be read;
* `Operator.Takes` — **no failure**, and what is returned;
* `readSummary_writeSummary` — summaries are read back;
* `takes_sampling`, `takes_patternFilter`, `takes_keyCopy`, `takes_rowSummary`, `takes_countAll`,
  `takes_checksumAll`, `takes_summarizeAll` — the operators.
-/

import Strata.Proofs.Codec.FieldOrder
import Strata.Proofs.Operator.KeyLocal
import Strata.View.Basic

set_option relaxedAutoImplicit false
set_option autoImplicit false

namespace Strata

/-! ### Readable entries -/

/-- The key is read, and nests no deeper than what can be read again; the value can be read. -/
structure Entry.Readable (keyCodec : Codec) (format : ValueReading) (e : Entry) : Prop where
  key : ∃ key, keyCodec.decode e.key = .ok key ∧ key.depth ≤ Codec.depthLimit
  value : ∃ v, format.decode e.value = .ok v

/-- On entries of one kind the operator never fails, and what it returns is of another. -/
def Operator.Takes (operator : Operator) (P Q : Entry → Prop) : Prop :=
  ∀ entries : List Entry, (∀ e ∈ entries, P e) →
    ∃ out, operator entries = .ok out ∧ ∀ e ∈ out, Q e

variable {keyCodec codec : Codec} {format : ValueReading} {options : Options} {operator : Operator}
  {P Q : Entry → Prop} {e : Entry} {entries : List Entry}

theorem ValueReading.decode_coded {bytes : Bytes} :
    (∃ v, (ValueReading.coded codec).decode bytes = .ok v) ↔
      ∃ v, codec.decode bytes = .ok v := by
  rw [ValueReading.decode]
  cases codec.decode bytes <;> simp [Except.mapError]

theorem Entry.Readable.decode_key (h : e.Readable keyCodec format) :
    ∃ key, OperatorError.ofCodec (keyCodec.decode e.key) = .ok key := by
  obtain ⟨key, hkey, -⟩ := h.key
  exact ⟨key, by rw [hkey]; rfl⟩

theorem Entry.Readable.decode_value (h : e.Readable keyCodec (.coded codec)) :
    ∃ v, OperatorError.ofCodec (codec.decode e.value) = .ok v := by
  obtain ⟨v, hv⟩ := ValueReading.decode_coded.1 h.value
  exact ⟨v, by rw [hv]; rfl⟩

/-- A readable entry is readable with any other value that can be read. -/
theorem Entry.Readable.withValue (h : e.Readable keyCodec format) {other : ValueReading}
    {bytes : Bytes} (hbytes : ∃ v, other.decode bytes = .ok v) :
    Entry.Readable keyCodec other { e with value := bytes } :=
  ⟨h.key, hbytes⟩

/-- Whatever eight bytes an aggregate leaves, they are read as an integer. -/
theorem exists_decode_long (n : Int64) :
    ∃ v, (ValueReading.coded .long).decode (Codec.LongWord.write n) = .ok v :=
  ValueReading.decode_coded.2 ⟨.int n, Codec.LongWord.decode_write n⟩

/-! ### Going through entries -/

section Through

variable {α β ε : Type} {xs : List α}

/-- Nothing fails if it fails on no piece. -/
theorem exists_pick {f : α → Except ε (Option β)} {good : β → Prop}
    (h : ∀ x ∈ xs, ∃ y, f x = .ok y ∧ ∀ z ∈ y, good z) :
    ∃ out, pick f xs = .ok out ∧ ∀ z ∈ out, good z := by
  induction xs with
  | nil => exact ⟨[], rfl, by simp⟩
  | cons x xs ih =>
      rw [List.forall_mem_cons] at h
      obtain ⟨y, hy, hgood⟩ := h.1
      obtain ⟨out, hout, hall⟩ := ih h.2
      refine ⟨y.toList ++ out, by rw [pick_cons, hy, hout]; rfl, ?_⟩
      intro z hz
      rcases List.mem_append.1 hz with hz | hz
      · exact hgood z (by simpa using hz)
      · exact hall z hz

theorem exists_foldlM {f : β → α → Except ε β} (h : ∀ x ∈ xs, ∀ b, ∃ c, f b x = .ok c) (b : β) :
    ∃ c, xs.foldlM f b = .ok c := by
  induction xs generalizing b with
  | nil => exact ⟨b, rfl⟩
  | cons x xs ih =>
      rw [List.forall_mem_cons] at h
      obtain ⟨c, hc⟩ := h.1 b
      rw [List.foldlM_cons, hc]
      exact ih h.2 c

end Through

/-! ### Filters -/

theorem takes_sampling {digest : Bytes → Bytes} (h : sampling digest options = .ok operator) :
    operator.Takes P P := by
  obtain ⟨s, -, rfl⟩ := sampling_eq_ok h
  intro entries hentries
  exact ⟨_, rfl, fun e he => hentries e (List.mem_filter.1 he).1⟩

theorem exists_matchesText (pattern : Option Pattern) {bytes : Bytes}
    (h : ∃ v, OperatorError.ofCodec (codec.decode bytes) = .ok v) :
    ∃ found, PatternFilter.matchesText codec pattern bytes = .ok found := by
  obtain ⟨v, hv⟩ := h
  cases pattern with
  | none => exact ⟨true, rfl⟩
  | some p => exact ⟨p.found v.render, by rw [PatternFilter.matchesText, hv]; rfl⟩

theorem takes_patternFilter (h : patternFilter options = .ok operator)
    (hkey : options.codec Options.keyCodec = .ok keyCodec)
    (hvalue : options.codec Options.valueInputCodec = .ok codec) :
    operator.Takes (Entry.Readable keyCodec (.coded codec))
      (Entry.Readable keyCodec (.coded codec)) := by
  obtain ⟨f, hf, rfl⟩ := patternFilter_eq_ok h
  obtain ⟨k, hk, hf⟩ := bind_eq_ok.1 hf
  obtain ⟨c, hc, hf⟩ := bind_eq_ok.1 hf
  obtain ⟨keyPattern, -, hf⟩ := bind_eq_ok.1 hf
  obtain ⟨valuePattern, -, hf⟩ := bind_eq_ok.1 hf
  obtain rfl : keyCodec = k := Except.ok.inj (hkey.symm.trans hk)
  obtain rfl : codec = c := Except.ok.inj (hvalue.symm.trans hc)
  obtain rfl := Except.ok.inj hf
  intro entries hentries
  rw [run_eq_pick]
  refine exists_pick ?_
  intro e he
  have hreadable := hentries e he
  -- the value is decoded only if the key matches
  have haccepts : ∃ accepted,
      PatternFilter.accepts ⟨keyCodec, codec, keyPattern, valuePattern⟩ e = .ok accepted := by
    obtain ⟨found, hfound⟩ := exists_matchesText keyPattern hreadable.decode_key
    rw [PatternFilter.accepts, hfound]
    cases found with
    | false => exact ⟨false, rfl⟩
    | true => exact exists_matchesText valuePattern hreadable.decode_value
  obtain ⟨accepted, haccepted⟩ := haccepts
  refine ⟨if accepted then some e else none, by rw [haccepted]; rfl, ?_⟩
  intro z hz
  cases accepted with
  | false => cases hz
  | true =>
      obtain rfl := Option.some.inj hz
      exact hreadable

/-! ### Transforms -/

/-- What was read of a key is written in any order of its fields, and read again. -/
theorem exists_copied {bytes : Bytes} {key arranged : Value}
    (hdecode : keyCodec.decode bytes = .ok key) (hdepth : key.depth ≤ Codec.depthLimit)
    (harranged : key.Rearranged arranged) :
    ∃ copied, keyCodec.encode arranged = .ok copied ∧ ∃ v, keyCodec.decode copied = .ok v := by
  obtain ⟨again, hagain⟩ := Codec.encode_of_decode hdecode
  obtain ⟨copied, hcopied⟩ := Codec.exists_encode_of_rearranged harranged hagain
  have hannounces := (Codec.announces_of_decode hdecode).rearranged harranged
  refine ⟨copied, hcopied, (Codec.readsBack_encode hannounces hcopied).exists_iff.2 ?_⟩
  exact harranged.depth_eq ▸ hdepth

theorem takes_keyCopy {order : FieldOrder} (h : keyCopy order options = .ok operator)
    (hkey : options.codec Options.keyCodec = .ok keyCodec)
    (houtput : options.get? Options.valueOutputCodec = some keyCodec.id) :
    operator.Takes (Entry.Readable keyCodec format)
      (Entry.Readable keyCodec (.coded keyCodec)) := by
  obtain ⟨k, c, hk, hc, rfl⟩ := keyCopy_eq_ok h
  obtain rfl : keyCodec = k := Except.ok.inj (hkey.symm.trans hk)
  obtain rfl : keyCodec = c := by
    rw [houtput, Option.isSome_some, if_pos rfl, Options.codec, houtput, Option.getD_some,
      Codec.named_id] at hc
    exact Except.ok.inj hc
  intro entries hentries
  simp only [mapM_eq_pick]
  refine exists_pick ?_
  intro e he
  -- the key was read before, so what is written of it is read as well
  obtain ⟨key, hdecode, hdepth⟩ := (hentries e he).key
  obtain ⟨copied, hcopied, hread⟩ := exists_copied hdecode hdepth (order.rearranged e key)
  refine ⟨some { e with value := copied }, ?_, fun z hz => ?_⟩
  · simp only [copyKey, hdecode, hcopied, OperatorError.ofCodec, bind, Except.bind, pure,
      Except.pure, Except.map]
  · obtain rfl := Option.some.inj hz
    exact (hentries e he).withValue (ValueReading.decode_coded.2 hread)

theorem exists_summarize (hentries : ∀ e ∈ entries, e.Readable keyCodec (.coded codec)) :
    ∃ s, summarize codec entries = .ok s := by
  refine exists_foldlM (fun e he s => ?_) _
  obtain ⟨v, hv⟩ := (hentries e he).decode_value
  exact ⟨_, by rw [addNumber, hv]; rfl⟩

open MessagePack in
theorem reads_writeSummary (s : Summary Float) :
    Reads (writeSummary s) (summaryDoc { s with count := s.count % 2 ^ 64 }) := by
  have hitems := List.Forall₂.cons (reads_unsigned s.count)
    (.cons (reads_float s.mean) (.cons (reads_float s.deviations) (.cons (reads_float s.min)
      (.cons (reads_float s.max) (.cons (reads_float s.sum) .nil)))))
  have hreads := reads_array hitems (by simp)
  simp only [writeSummary, summaryDoc, Doc.write, writeItems, List.length_cons, List.length_nil,
    List.flatten_cons, List.flatten_nil] at hreads ⊢
  exact hreads

theorem summaryOfDoc?_summaryDoc {s : Summary Float} (h : s.count < 2 ^ 64) :
    summaryOfDoc? (summaryDoc s) = some s := by
  have hcount : countOf? (.unsigned s.count) = some s.count := by
    simp only [countOf?, Codec.integer?]
    rw [if_pos (by omega), Int.toNat_natCast]
  simp only [summaryDoc, summaryOfDoc?, hcount]
  rfl

open MessagePack in
theorem readSummary_of_doc {bytes rest : Bytes} {doc : Doc} {s : Summary Float}
    (hread : Doc.read? bytes = some (doc, rest)) (hdoc : summaryOfDoc? doc = some s) :
    readSummary bytes = .ok s := by
  rw [readSummary, hread, Option.bind_some, hdoc]

open MessagePack in
/-- **A summary is read back**, its count reduced to 64 bits. -/
theorem readSummary_writeSummary (s : Summary Float) :
    readSummary (writeSummary s) = .ok { s with count := s.count % 2 ^ 64 } := by
  have hread := Doc.read?_of_reads (reads_writeSummary s) []
  have hlt : s.count % 2 ^ 64 < 2 ^ 64 := Nat.mod_lt s.count (Nat.two_pow_pos 64)
  rw [List.append_nil] at hread
  exact readSummary_of_doc hread (summaryOfDoc?_summaryDoc hlt)

theorem exists_decode_summary (s : Summary Float) :
    ∃ v, ValueReading.summary.decode (writeSummary s) = .ok v :=
  ⟨_, by rw [ValueReading.decode, readSummary_writeSummary]; rfl⟩

/-- The entry that stands for a row carries a summary in the place of its value. -/
theorem takes_rowSummary (h : rowSummary options = .ok operator)
    (hvalue : options.codec Options.valueInputCodec = .ok codec) :
    operator.Takes (Entry.Readable keyCodec (.coded codec)) (Entry.Readable keyCodec .summary) := by
  obtain ⟨found, hfound, rfl⟩ := rowSummary_eq_ok h
  obtain rfl : codec = found := Except.ok.inj (hvalue.symm.trans hfound)
  intro entries hentries
  refine exists_pick ?_
  intro row hrow
  have hmem : ∀ e ∈ row, e ∈ entries := by
    intro e he
    rw [← (rows_spec entries).2]
    exact List.mem_flatten.2 ⟨row, hrow, he⟩
  obtain ⟨s, hs⟩ := exists_summarize fun e he => hentries e (hmem e he)
  refine ⟨_, by rw [summarizeRow, hs]; rfl, ?_⟩
  intro z hz
  obtain ⟨newest, hnewest, rfl⟩ := Option.map_eq_some_iff.1 hz
  have hreadable := hentries newest (hmem newest (List.mem_of_head? hnewest))
  exact hreadable.withValue (exists_decode_summary s)

/-! ### Aggregates -/

/-- What is gathered of readable entries has the key of one of them. -/
theorem takes_gather {value : List Entry → Except OperatorError Bytes} {other : ValueReading}
    (h : ∀ entries : List Entry, (∀ e ∈ entries, e.Readable keyCodec format) →
      ∃ bytes, value entries = .ok bytes ∧ ∃ v, other.decode bytes = .ok v) :
    Operator.Takes (gather value) (Entry.Readable keyCodec format)
      (Entry.Readable keyCodec other) := by
  intro entries hentries
  obtain ⟨bytes, hbytes, hread⟩ := h entries hentries
  rw [gather]
  cases hlast : entries.getLast? with
  | none => exact ⟨[], rfl, by simp⟩
  | some last =>
      refine ⟨[{ last with value := bytes }], by simp only [hbytes]; rfl, ?_⟩
      intro e he
      obtain rfl := List.mem_singleton.1 he
      exact (hentries last (List.mem_of_getLast? hlast)).withValue hread

theorem takes_countAll (options : Options) (h : countAll options = .ok operator) :
    operator.Takes (Entry.Readable keyCodec format) (Entry.Readable keyCodec (.coded .long)) := by
  obtain rfl := Except.ok.inj h
  exact takes_gather fun entries _ => ⟨_, rfl, exists_decode_long _⟩

theorem takes_checksumAll (h : checksumAll options = .ok operator)
    (hkey : options.codec Options.keyCodec = .ok keyCodec)
    (hvalue : options.codec Options.valueInputCodec = .ok codec) :
    operator.Takes (Entry.Readable keyCodec (.coded codec))
      (Entry.Readable keyCodec (.coded .long)) := by
  obtain ⟨k, hk, h⟩ := bind_eq_ok.1 h
  obtain ⟨c, hc, h⟩ := bind_eq_ok.1 h
  obtain rfl : keyCodec = k := Except.ok.inj (hkey ▸ hk)
  obtain rfl : codec = c := Except.ok.inj (hvalue ▸ hc)
  obtain rfl := Except.ok.inj h
  refine takes_gather ?_
  intro entries hentries
  obtain ⟨sums, hsums⟩ : ∃ sums,
      entries.foldlM (addHashes keyCodec codec) Checksum.empty = .ok sums := by
    refine exists_foldlM (fun e he c => ?_) _
    obtain ⟨key, hkey⟩ := (hentries e he).decode_key
    obtain ⟨v, hv⟩ := (hentries e he).decode_value
    exact ⟨_, by rw [addHashes, hkey, hv]; rfl⟩
  exact ⟨_, by rw [hsums]; rfl, exists_decode_long _⟩

theorem takes_summarizeAll (h : summarizeAll options = .ok operator)
    (hvalue : options.codec Options.valueInputCodec = .ok codec) :
    operator.Takes (Entry.Readable keyCodec (.coded codec)) (Entry.Readable keyCodec .summary) := by
  obtain ⟨found, hfound, h⟩ := bind_eq_ok.1 h
  obtain rfl : codec = found := Except.ok.inj (hvalue ▸ hfound)
  obtain rfl := Except.ok.inj h
  refine takes_gather ?_
  intro entries hentries
  obtain ⟨s, hs⟩ := exists_summarize hentries
  exact ⟨_, by rw [hs]; rfl, exists_decode_summary s⟩

end Strata
