/-
**Whatever is read announces its sizes.**

The packed format announces the size of every text, array and object in 32 bits.  A value with a
greater size is written all the same, and read as something else.  But no head of a document
announces more than 32 bits can hold, so no document that is read has a greater size, whoever wrote
it; nor has a value that is made of one.  So what is read of any bytes can be written again, by the
codec that read it, without losing a size.

* `MessagePack.fits_of_readHead`, `MessagePack.Doc.fits_of_read?` — documents that are read;
* `Codec.fits_ofDoc?` — values that they pack;
* `Codec.decode_cases`, `Codec.announces_of_decode` — **what a codec reads**.
-/

import Strata.Proofs.Codec.ReadBack

set_option relaxedAutoImplicit false
set_option autoImplicit false

namespace Strata

/-- A text that is read is spelled by the bytes that it is read from. -/
theorem Bytes.ofText_of_text? {bytes : Bytes} {s : String} (h : Bytes.text? bytes = some s) :
    Bytes.ofText s = bytes := by
  rw [text?, String.fromUTF8?] at h
  split at h
  · obtain rfl := Option.some.inj h
    rfl
  · cases h

/-! ### Documents that are read -/

namespace MessagePack

theorem itemsFit_iff {items : List Doc} : ItemsFit items ↔ ∀ item ∈ items, item.Fits := by
  induction items with
  | nil => simp [ItemsFit]
  | cons item items ih => rw [ItemsFit, ih, List.forall_mem_cons]

theorem entriesFit_iff {entries : List (Doc × Doc)} :
    EntriesFit entries ↔ ∀ entry ∈ entries, entry.1.Fits ∧ entry.2.Fits := by
  induction entries with
  | nil => simp [EntriesFit]
  | cons entry entries ih => rw [EntriesFit, ih, List.forall_mem_cons, and_assoc]

/-- What a head announces, the format can hold. -/
def Head.Fits : Head → Prop
  | .whole doc => doc.Fits
  | .text size | .binary size | .array size | .map size | .extension size => size < 2 ^ 32

variable {input rest bytes : Bytes} {found : Head} {doc : Doc}

theorem takeBytes?_eq_some {n : Nat} (h : takeBytes? n input = some (bytes, rest)) :
    bytes.length = n := by
  rw [takeBytes?] at h
  split at h
  · next hlength =>
    obtain ⟨rfl, -⟩ := Prod.mk.inj (Option.some.inj h)
    exact hlength
  · cases h

/-- What is made of the bytes behind a head fits if it does for all bytes of their number. -/
theorem fits_of_content {size : Nat} (make : Bytes → Doc)
    (h : (takeBytes? size input).map (fun (bytes, rest) => (make bytes, rest)) = some (doc, rest))
    (hmake : ∀ bytes : Bytes, bytes.length = size → (make bytes).Fits) : doc.Fits := by
  obtain ⟨⟨bytes, behind⟩, hbytes, h⟩ := Option.map_eq_some_iff.1 h
  obtain ⟨rfl, -⟩ := Prod.mk.inj h
  exact hmake bytes (takeBytes?_eq_some hbytes)

/-- A number is announced in no more bytes than stand behind its head. -/
theorem fits_of_numberHead {width : Nat} {head : Nat → Head}
    (h : numberHead width head input = some (found, rest))
    (hhead : ∀ n < 256 ^ width, (head n).Fits) : found.Fits := by
  obtain ⟨⟨n, behind⟩, hn, h⟩ := Option.map_eq_some_iff.1 h
  obtain ⟨⟨digits, tail⟩, hdigits, hsplit⟩ := Option.map_eq_some_iff.1 hn
  obtain ⟨rfl, -⟩ := Prod.mk.inj h
  obtain ⟨rfl, -⟩ := Prod.mk.inj hsplit
  refine hhead _ ?_
  rw [← takeBytes?_eq_some hdigits]
  exact Bytes.toNat_lt digits

theorem fits_of_head {head : Head} (h : some (head, input) = some (found, rest))
    (hhead : head.Fits) : found.Fits := by
  obtain ⟨rfl, -⟩ := Prod.mk.inj (Option.some.inj h)
  exact hhead

theorem fits_ofTwosComplement {width n : Nat} (hn : n < 256 ^ width)
    (hwidth : 256 ^ width ≤ 2 ^ 64) : (Doc.signed (ofTwosComplement width n)).Fits := by
  rw [ofTwosComplement]
  generalize 256 ^ width = w at hn hwidth
  show -2 ^ 63 ≤ _ ∧ _ < 2 ^ 63
  split <;> omega

/-- **No head announces more than the format can hold.** -/
theorem fits_of_readHead (h : readHead input = some (found, rest)) : found.Fits := by
  cases input with
  | nil => cases h
  | cons byte tail =>
      have hbyte := byte.toNat_lt
      rw [readHead] at h
      generalize byte.toNat = b at h hbyte
      split at h
      · exact fits_of_head h (show b < 2 ^ 64 by omega)
      split at h
      · exact fits_of_head h (show b - 0x80 < 2 ^ 32 by omega)
      split at h
      · exact fits_of_head h (show b - 0x90 < 2 ^ 32 by omega)
      split at h
      · exact fits_of_head h (show b - 0xa0 < 2 ^ 32 by omega)
      split at h
      · exact fits_of_head h (show -2 ^ 63 ≤ (b : Int) - 256 ∧ (b : Int) - 256 < 2 ^ 63 by omega)
      -- any other head stands for one document, or for a number in the bytes behind it
      split at h
      all_goals first
        | exact fits_of_numberHead h fun n hn => fits_ofTwosComplement hn (by decide)
        | exact fits_of_numberHead h fun n hn => Nat.lt_of_lt_of_le hn (by decide)
        | exact fits_of_numberHead h fun n hn => trivial
        | exact fits_of_head h trivial
        | exact fits_of_head h (show _ < 2 ^ 32 by decide)
        | cases h

/-- What is read with some fuel fits: a document, and containers whose items so far fit. -/
structure ReadsFit (fuel : Nat) : Prop where
  doc : ∀ input doc rest, readWith fuel input = some (doc, rest) → doc.Fits
  items : ∀ size known input doc rest, (∀ item ∈ known, item.Fits) →
    known.length + size < 2 ^ 32 → readItems fuel size known input = some (doc, rest) → doc.Fits
  entries : ∀ size known input doc rest, (∀ entry ∈ known, entry.1.Fits ∧ entry.2.Fits) →
    known.length + size < 2 ^ 32 → readEntries fuel size known input = some (doc, rest) → doc.Fits

/-- An array of no further items is what was read before. -/
theorem fits_of_readItems_zero {fuel : Nat} {known : List Doc} (hknown : ∀ item ∈ known, item.Fits)
    (hsize : known.length < 2 ^ 32) (h : readItems fuel 0 known input = some (doc, rest)) :
    doc.Fits := by
  rw [readItems] at h
  obtain ⟨rfl, -⟩ := Prod.mk.inj (Option.some.inj h)
  exact ⟨by rwa [List.length_reverse],
    itemsFit_iff.2 fun item hitem => hknown item (List.mem_reverse.1 hitem)⟩

theorem fits_of_readEntries_zero {fuel : Nat} {known : List (Doc × Doc)}
    (hknown : ∀ entry ∈ known, entry.1.Fits ∧ entry.2.Fits) (hsize : known.length < 2 ^ 32)
    (h : readEntries fuel 0 known input = some (doc, rest)) : doc.Fits := by
  rw [readEntries] at h
  obtain ⟨rfl, -⟩ := Prod.mk.inj (Option.some.inj h)
  exact ⟨by rwa [List.length_reverse],
    entriesFit_iff.2 fun entry hentry => hknown entry (List.mem_reverse.1 hentry)⟩

theorem ReadsFit.succ_doc {fuel : Nat} (ih : ReadsFit fuel)
    (h : readWith (fuel + 1) input = some (doc, rest)) : doc.Fits := by
  rw [readWith] at h
  have hnone : ∀ item ∈ ([] : List Doc), item.Fits := List.forall_mem_nil _
  split at h
  · cases h
  · next hread =>
    obtain ⟨rfl, -⟩ := Prod.mk.inj (Option.some.inj h)
    exact fits_of_readHead hread
  · next size tail hread =>
    exact fits_of_content .text h fun bytes hbytes => hbytes.trans_lt (fits_of_readHead hread)
  · next size tail hread =>
    exact fits_of_content .binary h fun bytes hbytes => hbytes.trans_lt (fits_of_readHead hread)
  · next size tail hread =>
    -- the first of the bytes is the kind of the extension
    refine fits_of_content (fun bytes => .extension (bytes.headD 0) bytes.tail) h
      fun bytes hbytes => ?_
    have hsize : size < 2 ^ 32 := fits_of_readHead hread
    show bytes.tail.length < 2 ^ 32
    rw [List.length_tail, hbytes]
    exact hsize
  · next size tail hread =>
    have hsize : size < 2 ^ 32 := fits_of_readHead hread
    exact ih.items size [] tail doc rest hnone (by simpa using hsize) h
  · next size tail hread =>
    have hsize : size < 2 ^ 32 := fits_of_readHead hread
    exact ih.entries size [] tail doc rest (List.forall_mem_nil _) (by simpa using hsize) h

/-- **All that is read fits.** -/
theorem readsFit (fuel : Nat) : ReadsFit fuel := by
  induction fuel with
  | zero =>
      constructor
      · intro input doc rest h
        rw [readWith] at h
        cases h
      · intro size known input doc rest hknown hsize h
        cases size with
        | zero => exact fits_of_readItems_zero hknown hsize h
        | succ size => rw [readItems] at h; cases h
      · intro size known input doc rest hknown hsize h
        cases size with
        | zero => exact fits_of_readEntries_zero hknown hsize h
        | succ size => rw [readEntries] at h; cases h
  | succ fuel ih =>
      refine ⟨fun input doc rest => ih.succ_doc, ?_, ?_⟩
      · intro size known input doc rest hknown hsize h
        cases size with
        | zero => exact fits_of_readItems_zero hknown hsize h
        | succ size =>
            rw [readItems] at h
            split at h
            · cases h
            · next item tail hitem =>
              refine ih.items size (item :: known) tail doc rest ?_ ?_ h
              · exact List.forall_mem_cons.2 ⟨ih.doc input item tail hitem, hknown⟩
              · rw [List.length_cons]
                omega
      · intro size known input doc rest hknown hsize h
        cases size with
        | zero => exact fits_of_readEntries_zero hknown hsize h
        | succ size =>
            rw [readEntries] at h
            split at h
            · cases h
            · next key behind hkey =>
              split at h
              · cases h
              · next content tail hcontent =>
                refine ih.entries size ((key, content) :: known) tail doc rest ?_ ?_ h
                · have hentry := And.intro (ih.doc input key behind hkey)
                    (ih.doc behind content tail hcontent)
                  exact List.forall_mem_cons.2 ⟨hentry, hknown⟩
                · rw [List.length_cons]
                  omega

/-- **Every document that is read fits.** -/
theorem Doc.fits_of_read? (h : Doc.read? input = some (doc, rest)) : doc.Fits :=
  (readsFit _).doc input doc rest h

end MessagePack

/-! ### Values that are read -/

namespace Codec

open MessagePack

theorem textOf?_fits {doc : Doc} {s : String} (hdoc : doc.Fits) (h : textOf? doc = some s) :
    (Bytes.ofText s).length < 2 ^ 32 := by
  unfold textOf? at h
  split at h
  · rw [Bytes.ofText_of_text? h]
    exact hdoc
  · rw [Bytes.ofText_of_text? h]
    exact hdoc
  · cases h

theorem length_of_mapM_eq_some {α β : Type} {f : α → Option β} {xs : List α} {ys : List β}
    (h : xs.mapM f = some ys) : ys.length = xs.length := by
  induction xs generalizing ys with
  | nil =>
      obtain rfl : [] = ys := Option.some.inj h
      rfl
  | cons x xs ih =>
      rw [List.mapM_cons] at h
      obtain ⟨y, -, h⟩ := Option.bind_eq_some_iff.1 h
      obtain ⟨rest, hrest, h⟩ := Option.bind_eq_some_iff.1 h
      obtain rfl : y :: rest = ys := Option.some.inj h
      rw [List.length_cons, List.length_cons, ih hrest]

theorem length_ofDocs? {depth : Nat} {items : List Doc} {found : List Value}
    (h : ofDocs? depth items = some found) : found.length = items.length := by
  induction items generalizing found with
  | nil =>
      rw [ofDocs?] at h
      obtain rfl := Option.some.inj h
      rfl
  | cons item items ih =>
      rw [ofDocs?] at h
      split at h
      · cases h
      · obtain ⟨rest, hrest, rfl⟩ := Option.map_eq_some_iff.1 h
        rw [List.length_cons, List.length_cons, ih hrest]

theorem length_ofEntries? {depth : Nat} {entries : List (Doc × Doc)}
    {found : List (String × Value)} (h : ofEntries? depth entries = some found) :
    found.length = entries.length := by
  induction entries generalizing found with
  | nil =>
      rw [ofEntries?] at h
      obtain rfl := Option.some.inj h
      rfl
  | cons entry entries ih =>
      rw [ofEntries?] at h
      split at h
      · cases h
      · split at h
        · cases h
        · obtain ⟨rest, hrest, rfl⟩ := Option.map_eq_some_iff.1 h
          rw [List.length_cons, List.length_cons, ih hrest]

mutual

/-- What a document that fits packs fits as well. -/
theorem fits_ofDoc? (depth : Nat) (doc : Doc) (v : Value) (hdoc : doc.Fits)
    (h : ofDoc? depth doc = some v) : v.Fits := by
  unfold ofDoc? at h
  split at h
  · next name content =>
    split at h
    · exact fits_ofContent? _ _ content v hdoc.2.2.1 h
    · cases h
  · cases h
  · split at h
    · obtain rfl := Option.some.inj h
      trivial
    · cases h

theorem fits_ofContent? (depth : Nat) (kind : Kind) (content : Doc) (v : Value)
    (hcontent : content.Fits) (h : ofContent? depth kind content = some v) : v.Fits := by
  unfold ofContent? at h
  split at h
  · obtain rfl := Option.some.inj h
    trivial
  · obtain rfl := Option.some.inj h
    trivial
  · split at h
    · split at h
      · obtain rfl := Option.some.inj h
        trivial
      · cases h
    · cases h
  · obtain ⟨x, -, rfl⟩ := Option.map_eq_some_iff.1 h
    trivial
  · obtain ⟨s, hs, rfl⟩ := Option.map_eq_some_iff.1 h
    exact textOf?_fits hcontent hs
  · obtain rfl := Option.some.inj h
    exact hcontent
  · obtain ⟨b, hb, rfl⟩ := Option.map_eq_some_iff.1 h
    exact (length_of_mapM_eq_some hb).trans_lt hcontent.1
  · obtain rfl := Option.some.inj h
    exact ⟨Nat.two_pow_pos 32, trivial⟩
  · next depth items =>
    obtain ⟨found, hfound, rfl⟩ := Option.map_eq_some_iff.1 h
    exact ⟨(length_ofDocs? hfound).trans_lt hcontent.1,
      fits_ofDocs? depth items found hcontent.2 hfound⟩
  · next depth entries =>
    obtain ⟨found, hfound, rfl⟩ := Option.map_eq_some_iff.1 h
    exact Value.fits_ofFields ((length_ofEntries? hfound).trans_lt hcontent.1)
      (fits_ofEntries? depth entries found hcontent.2 hfound)
  · cases h

theorem fits_ofDocs? (depth : Nat) (items : List Doc) (found : List Value)
    (hitems : MessagePack.ItemsFit items) (h : ofDocs? depth items = some found) :
    Value.ItemsFit found := by
  unfold ofDocs? at h
  split at h
  · obtain rfl := Option.some.inj h
    trivial
  · next item items =>
    split at h
    · cases h
    · next v hv =>
      obtain ⟨rest, hrest, rfl⟩ := Option.map_eq_some_iff.1 h
      exact ⟨fits_ofDoc? _ item v hitems.1 hv, fits_ofDocs? _ items rest hitems.2 hrest⟩

theorem fits_ofEntries? (depth : Nat) (entries : List (Doc × Doc))
    (found : List (String × Value)) (hentries : EntriesFit entries)
    (h : ofEntries? depth entries = some found) : Value.FieldsFit found := by
  unfold ofEntries? at h
  split at h
  · obtain rfl := Option.some.inj h
    trivial
  · next name content entries =>
    split at h
    · cases h
    · next name hname =>
      split at h
      · cases h
      · next v hv =>
        obtain ⟨rest, hrest, rfl⟩ := Option.map_eq_some_iff.1 h
        exact ⟨textOf?_fits hentries.1 hname, fits_ofDoc? _ content v hentries.2.1 hv,
          fits_ofEntries? _ entries rest hentries.2.2 hrest⟩

end

variable {c : Codec} {v : Value} {bytes : Bytes}

theorem fits_of_unpack? (h : unpack? bytes = some v) : v.Fits := by
  rw [unpack?] at h
  split at h
  · cases h
  · next hread => exact fits_ofDoc? _ _ v (Doc.fits_of_read? hread) h

/-- A value that was read is a number, a text or bytes, or it was packed. -/
theorem decode_cases (h : c.decode bytes = .ok v) :
    (∃ n, v = .int n) ∨ (∃ x, v = .float x) ∨ (∃ s, v = .text s) ∨ (∃ b, v = .bytes b) ∨
      ∃ payload, unpack? payload = some v := by
  cases c with
  | long =>
      obtain ⟨n, rfl⟩ := LongWord.decode_eq_ok h
      exact Or.inl ⟨n, rfl⟩
  | packed =>
      rw [decode] at h
      split at h
      · next hfound => exact Or.inr (Or.inr (Or.inr (Or.inr ⟨bytes, Except.ok.inj h ▸ hfound⟩)))
      · cases h
  | fixedPoint =>
      rw [decode, FixedPoint.decode.eq_def] at h
      split at h
      · cases h
      · cases h
      split at h
      · next tag payload _ =>
        rw [FixedPoint.decodePayload] at h
        split at h
        · exact Or.inr (Or.inr (Or.inr (Or.inl ⟨payload, (Except.ok.inj h).symm⟩)))
        split at h
        · rw [FixedPoint.decodeNumber] at h
          split at h
          · exact Or.inl ⟨_, (Except.ok.inj h).symm⟩
          split at h
          · exact Or.inr (Or.inl ⟨_, (Except.ok.inj h).symm⟩)
          · split at h <;> cases h
        split at h
        · split at h
          · next hfound =>
            exact Or.inr (Or.inr (Or.inr (Or.inr ⟨payload, Except.ok.inj h ▸ hfound⟩)))
          · cases h
        split at h
        · split at h
          · exact Or.inr (Or.inr (Or.inl ⟨_, (Except.ok.inj h).symm⟩))
          · cases h
        · cases h
      · cases h

/-- **Whatever is read can be written with all its sizes.** -/
theorem announces_of_decode (h : c.decode bytes = .ok v) : c.Announces v := by
  cases c with
  | long => trivial
  | packed =>
      rw [decode] at h
      split at h
      · next hfound => exact fits_of_unpack? (Except.ok.inj h ▸ hfound)
      · cases h
  | fixedPoint =>
      rcases decode_cases h with ⟨n, rfl⟩ | ⟨x, rfl⟩ | ⟨s, rfl⟩ | ⟨b, rfl⟩ | ⟨payload, hpayload⟩
      · trivial
      · trivial
      · trivial
      · trivial
      · exact announces_of_fits (fits_of_unpack? hpayload)

end Codec

end Strata
