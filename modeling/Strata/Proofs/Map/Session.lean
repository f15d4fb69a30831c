/-
**One batch at a time.**

A map is held by several clones, and each may open a batch, or write with a batch of its own.  All
of them share one slot.  A writer is the number under which an open batch is known; it fills its
batch until it sends or drops it, and is gone then.  Events come in any order; one that names a
clone or a writer that does not exist cannot happen, and is answered with nothing.

A record keeps of an event what was before it and what was answered.  The records tell what was put
into a batch and which batches the store accepted, and that is all that the store holds.

* `Session`, `SessionEvent`, `Session.step`, `Session.run` — a map that several hold;
* `SessionRecord`, `queued`, `accepted` — what the records tell;
* `WholeWrite.sent`, `WholeWrite.spec_of_atOnce` — what a write with a batch of its own sends;
* `WholeWrite.events`, `Session.run_events` — such a write, event by event;
* `Session.Consistent`, `Session.Consistent.step`, `Session.Consistent.run` — **the invariant**;
* `Session.one_batch` — **one batch at a time, nothing lost and nothing doubled**.
-/

import Strata.Proofs.Map.Stepwise

set_option relaxedAutoImplicit false
set_option autoImplicit false

namespace Strata

/-! ### Clones and writers -/

/-- What may happen to a map that several hold. -/
inductive SessionEvent where
  /-- A clone is made of a clone. -/
  | clone (holder : Nat)
  | openBatch (holder : Nat)
  /-- A write with a batch of its own. -/
  | write (holder : Nat) (w : WholeWrite)
  /-- Something is put into the batch of a writer. -/
  | queue (writer : Nat) (item : BatchItem)
  /-- A key that was found encoded is removed in the batch of a writer. -/
  | erase (writer : Nat) (key : Bytes)
  | submit (writer : Nat)
  | discard (writer : Nat)
  | drop (writer : Nat)

/-- The writer that an event needs. -/
def SessionEvent.writer? : SessionEvent → Option Nat
  | queue writer _ | erase writer _ | submit writer | discard writer | drop writer => some writer
  | clone _ | openBatch _ | write _ _ => none

/-- The writer that is gone after an event. -/
def SessionEvent.ends? : SessionEvent → Option Nat
  | submit writer | discard writer | drop writer => some writer
  | clone _ | openBatch _ | write _ _ | queue _ _ | erase _ _ => none

/-- The mutation that an event puts into the batch of its writer. -/
def SessionEvent.puts (s : Schema) : SessionEvent → Option Mutation
  | queue _ item => (item.mutation s).toOption
  | erase _ key => some (.delete key)
  | clone _ | openBatch _ | write _ _ | submit _ | discard _ | drop _ => none

/-- A map that several hold. -/
structure Session where
  container : Container
  /-- How many clones there are. -/
  clones : Nat
  /-- The batches that are open, each under the number of its writer. -/
  writers : List (Nat × Batch)
  /-- How many writers there were so far. -/
  opened : Nat

/-- What is answered to an event, if it can happen. -/
abbrev SessionAnswer := Option (Except MapError WriteAnswer)

namespace Session

/-- A map that was just opened. -/
def start (store : Store) (schema : Schema) : Session := ⟨⟨store, schema, false⟩, 1, [], 0⟩

/-- The writer is gone. -/
def without (s : Session) (writer : Nat) : Session :=
  { s with writers := s.writers.filter fun w => w.1 != writer }

/-- The batch of a writer is filled. -/
def fill (s : Session) (writer : Nat) (change : Batch → Except MapError Batch) :
    SessionAnswer × Session :=
  match s.writers.lookup writer with
  | none => (none, s)
  | some b =>
    match change b with
    | .error e => (some (.error e), s)
    | .ok b => (some (.ok .done),
      { s with writers := s.writers.map fun w => if w.1 = writer then (writer, b) else w })

/-- What is answered to an event, and where it leads. -/
def step (s : Session) : SessionEvent → SessionAnswer × Session
  | .clone holder =>
    if holder < s.clones then (some (.ok .done), { s with clones := s.clones + 1 }) else (none, s)
  | .openBatch holder =>
    if holder < s.clones then
      match s.container.openBatch s.container.base with
      | .error e => (some (.error e), s)
      | .ok c => (some (.ok .done),
        { s with
          container := c
          writers := (s.opened, .empty) :: s.writers
          opened := s.opened + 1 })
    else (none, s)
  | .write holder w =>
    if holder < s.clones then
      let (answer, c) := s.container.keep (w.atOnce s.container s.container.base)
      (some answer, { s with container := c })
    else (none, s)
  | .queue writer item => s.fill writer fun b => b.add s.container.schema item
  | .erase writer key => s.fill writer fun b => .ok (b.push (.delete key))
  | .submit writer =>
    match s.writers.lookup writer with
    | none => (none, s)
    | some b =>
      let (answer, c) := s.container.submit b
      (some (answer.map fun _ => .done), { s.without writer with container := c })
  | .discard writer | .drop writer =>
    match s.writers.lookup writer with
    | none => (none, s)
    | some _ => (some (.ok .done), { s.without writer with container := s.container.discard })

end Session

/-- An event, what was before it, and what was answered. -/
structure SessionRecord where
  before : Container
  event : SessionEvent
  answer : SessionAnswer

/-- Events, one after the other: their records, and where they lead. -/
def Session.run (s : Session) : List SessionEvent → List SessionRecord × Session
  | [] => ([], s)
  | event :: events =>
    let (answer, next) := s.step event
    let (records, last) := next.run events
    (⟨s.container, event, answer⟩ :: records, last)

/-! ### What the records tell -/

/-- The mutations that a write of the map itself sends. -/
def WholeWrite.sent (c : Container) (w : WholeWrite) : List Mutation :=
  match w.reads c c.base with
  | .ok (_, true) => (w.mutations c c.base).toOption.getD []
  | _ => []

namespace SessionRecord

/-- What the event put into the batch of a writer. -/
def queues (writer : Nat) (r : SessionRecord) : Option Mutation :=
  match r.answer with
  | some (.ok _) => if r.event.writer? = some writer then r.event.puts r.before.schema else none
  | _ => none

/-- The event was the last of a writer. -/
def Ends (writer : Nat) (r : SessionRecord) : Prop := r.event.ends? = some writer ∧ r.answer ≠ none

end SessionRecord

/-- What was put into the batch of a writer, in order. -/
def queued (writer : Nat) (records : List SessionRecord) : List Mutation :=
  records.filterMap (SessionRecord.queues writer)

/-- The batch that the store accepted at an event: the whole batch of the writer, or the batch of a
write of its own. -/
def SessionRecord.batch (earlier : List SessionRecord) (r : SessionRecord) : List Mutation :=
  match r.event, r.answer with
  | .submit writer, some (.ok _) => queued writer earlier
  | .write _ w, some (.ok _) => w.sent r.before
  | _, _ => []

/-- The batches that the store accepted, in order. -/
def accepted (earlier : List SessionRecord) : List SessionRecord → List (List Mutation)
  | [] => []
  | r :: records => r.batch earlier :: accepted (earlier ++ [r]) records

theorem Batch.add_eq (b : Batch) (s : Schema) (item : BatchItem) :
    b.add s item = (item.mutation s).map b.push := by
  cases item <;> rfl

/-- The last event of a writer puts nothing into its batch. -/
theorem SessionEvent.puts_of_ends {event : SessionEvent} {writer : Nat}
    (h : event.ends? = some writer) (s : Schema) : event.puts s = none := by
  cases event <;> first | rfl | exact nomatch h

theorem SessionRecord.queues_of_puts {r : SessionRecord}
    (h : r.event.puts r.before.schema = none) (writer : Nat) : r.queues writer = none := by
  rw [queues, h, ite_self]
  split <;> rfl

theorem queued_concat (writer : Nat) (records : List SessionRecord) (r : SessionRecord) :
    queued writer (records ++ [r]) = queued writer records ++ (r.queues writer).toList := by
  rw [queued, List.filterMap_append]
  cases hqueues : r.queues writer <;> simp [queued, hqueues]

theorem accepted_append (earlier records others : List SessionRecord) :
    accepted earlier (records ++ others) =
      accepted earlier records ++ accepted (earlier ++ records) others := by
  induction records generalizing earlier with
  | nil => rw [List.append_nil]; rfl
  | cons r records ih =>
      rw [List.cons_append, accepted, ih, accepted, List.append_assoc, List.singleton_append,
        List.cons_append]

/-! ### Writes with a batch of their own -/

namespace WholeWrite

variable {c next : Container} {w : WholeWrite}

/-- The write gets as far as opening its batch: what it reads before does not fail, and there is
something to remove. -/
def Attempts (c : Container) : WholeWrite → Prop
  | put key _ => ∃ previous, c.base.get c.store key = .ok previous
  | remove key => ∃ value, c.base.get c.store key = .ok (some value)
  | putWithoutGet _ _ | putAll _ | importAll _ _ | clear => True

theorem Attempts.reads (h : w.Attempts c) : ∃ answer, w.reads c c.base = .ok (answer, true) := by
  cases w with
  | put key value =>
      obtain ⟨previous, hprevious⟩ := h
      exact ⟨.previous previous, by rw [WholeWrite.reads, hprevious]; rfl⟩
  | remove key =>
      obtain ⟨value, hvalue⟩ := h
      exact ⟨.previous (some value), by rw [WholeWrite.reads, hvalue]; rfl⟩
  | _ => exact ⟨_, rfl⟩

/-- A write cannot open a batch while another is open. -/
theorem atOnce_of_open (hslot : c.batchOpen = true) (h : w.Attempts c) :
    w.atOnce c c.base = .error .batchInProgress := by
  obtain ⟨answer, hreads⟩ := h.reads
  rw [atOnce_eq rfl, hreads]
  show (c.writeAll _).map _ = _
  rw [Container.writeAll, Container.takeSlot_of_open hslot]
  rfl

/-- **A write with a batch of its own** sends that batch if the slot is free.  If it is not, the
write fails or does nothing. -/
theorem spec_of_atOnce {answer : WriteAnswer} (h : w.atOnce c c.base = .ok (answer, next)) :
    next = { c with store := (w.sent c).foldl Store.apply c.store } ∧
      (c.batchOpen = true → next = c) := by
  rw [atOnce_eq rfl] at h
  obtain ⟨⟨answer', writes⟩, hreads, h⟩ := bind_eq_ok.1 h
  cases writes with
  | false =>
      obtain ⟨-, rfl⟩ := Prod.mk.inj (Except.ok.inj h)
      rw [sent, hreads]
      exact ⟨rfl, fun _ => rfl⟩
  | true =>
      obtain ⟨written, hwritten, heq⟩ := map_eq_ok.1 h
      obtain ⟨-, rfl⟩ := Prod.mk.inj heq
      cases hslot : c.batchOpen with
      | true =>
          rw [Container.writeAll, Container.takeSlot_of_open hslot] at hwritten
          cases hwritten
      | false =>
          rw [Container.writeAll_eq hslot] at hwritten
          obtain ⟨batch, hbatch, hwritten⟩ := bind_eq_ok.1 hwritten
          obtain ⟨-, rfl⟩ := Container.written_eq_ok hwritten
          rw [sent, hreads]
          dsimp only
          rw [hbatch]
          exact ⟨by rw [← hslot]; rfl, nofun⟩

end WholeWrite

/-! ### The invariant -/

namespace Session

variable {store : Store} {records : List SessionRecord} {s s' : Session} {r : SessionRecord}

/-- **What holds of a map that several hold**, by the records of all that happened. -/
structure Consistent (store : Store) (records : List SessionRecord) (s : Session) : Prop where
  slot : s.writers = [] ∧ s.container.batchOpen = false ∨
    ∃ w, s.writers = [w] ∧ s.container.batchOpen = true
  /-- A batch holds what its writer put into it. -/
  batches : ∀ w ∈ s.writers, w.1 < s.opened ∧ w.2.mutations = queued w.1 records
  /-- Nothing was put into a batch before it was opened. -/
  unused : ∀ writer, s.opened ≤ writer → queued writer records = []
  /-- A writer that is gone does not come again. -/
  ended : ∀ r ∈ records, ∀ writer, r.Ends writer →
    writer < s.opened ∧ ∀ w ∈ s.writers, w.1 ≠ writer
  /-- The store holds what it accepted, and nothing else. -/
  stored : s.container.store = (accepted [] records).flatten.foldl Store.apply store

theorem consistent_start (store : Store) (schema : Schema) :
    (start store schema).Consistent store [] where
  slot := Or.inl ⟨rfl, rfl⟩
  batches := by simp [start]
  unused _ _ := rfl
  ended := by simp
  stored := rfl

/-- One more record, by what the event did to the writers and to the store. -/
theorem Consistent.add (h : s.Consistent store records)
    (hslot : s'.writers = [] ∧ s'.container.batchOpen = false ∨
      ∃ w, s'.writers = [w] ∧ s'.container.batchOpen = true)
    (hopened : s.opened ≤ s'.opened)
    (hbatches : ∀ w ∈ s'.writers,
      w.1 < s'.opened ∧ w.2.mutations = queued w.1 records ++ (r.queues w.1).toList)
    (hunused : ∀ writer, s'.opened ≤ writer → r.queues writer = none)
    (hgone : ∀ w ∈ s'.writers, (∃ old ∈ s.writers, old.1 = w.1) ∨ s.opened ≤ w.1)
    (hends : ∀ writer, r.Ends writer → writer < s'.opened ∧ ∀ w ∈ s'.writers, w.1 ≠ writer)
    (hstored : s'.container.store = (r.batch records).foldl Store.apply s.container.store) :
    s'.Consistent store (records ++ [r]) where
  slot := hslot
  batches w hw := by
    rw [queued_concat]
    exact hbatches w hw
  unused writer hwriter := by
    rw [queued_concat, h.unused writer (hopened.trans hwriter), hunused writer hwriter]
    rfl
  ended other hother writer hend := by
    rcases List.mem_append.1 hother with hother | hother
    · obtain ⟨hlt, hnone⟩ := h.ended other hother writer hend
      refine ⟨hlt.trans_le hopened, fun w hw => ?_⟩
      rintro rfl
      rcases hgone w hw with ⟨old, hold, heq⟩ | hge
      · exact hnone old hold heq
      · exact absurd hlt (Nat.not_lt.2 hge)
    · obtain rfl := List.mem_singleton.1 hother
      exact hends writer hend
  stored := by
    rw [accepted_append, List.flatten_append, List.foldl_append, ← h.stored, hstored]
    simp [accepted]

/-- An event that changes neither the writers nor the container. -/
theorem Consistent.idle (h : s.Consistent store records) (hwriters : s'.writers = s.writers)
    (hcontainer : s'.container = s.container) (hopened : s'.opened = s.opened)
    (hqueues : ∀ writer, r.queues writer = none) (hends : ∀ writer, ¬ r.Ends writer)
    (hbatch : r.batch records = []) : s'.Consistent store (records ++ [r]) := by
  refine h.add ?_ hopened.ge ?_ (fun writer _ => hqueues writer) ?_
    (fun writer hend => absurd hend (hends writer)) ?_
  · rw [hwriters, hcontainer]
    exact h.slot
  · rw [hwriters, hopened]
    intro w hw
    rw [hqueues]
    simpa using h.batches w hw
  · rw [hwriters]
    exact fun w hw => Or.inl ⟨w, hw, rfl⟩
  · rw [hcontainer, hbatch]
    rfl

/-- A writer that is found is the only one, and the slot is taken. -/
theorem Consistent.eq_of_lookup (h : s.Consistent store records) {writer : Nat} {b : Batch}
    (hb : s.writers.lookup writer = some b) :
    s.writers = [(writer, b)] ∧ s.container.batchOpen = true := by
  rcases h.slot with ⟨hnone, -⟩ | ⟨⟨other, batch⟩, hone, hslot⟩
  · rw [hnone] at hb
    cases hb
  · rw [hone, List.lookup_cons] at hb
    split at hb
    · next heq =>
      obtain rfl : writer = other := by simpa using heq
      obtain rfl : batch = b := Option.some.inj hb
      exact ⟨hone, hslot⟩
    · cases hb

/-- A batch is opened where none is. -/
theorem Consistent.openBatch (h : s.Consistent store records) {holder : Nat} {c : Container}
    (hc : s.container.openBatch s.container.base = .ok c) :
    Consistent store (records ++ [⟨s.container, .openBatch holder, some (.ok .done)⟩])
      { s with
        container := c
        writers := (s.opened, .empty) :: s.writers
        opened := s.opened + 1 } := by
  have htake : s.container.takeSlot = .ok c := hc
  obtain ⟨hnone, rfl⟩ : s.writers = [] ∧ c = { s.container with batchOpen := true } := by
    rcases h.slot with ⟨hnone, hfree⟩ | ⟨w, -, htaken⟩
    · rw [Container.takeSlot_of_free hfree] at htake
      exact ⟨hnone, (Except.ok.inj htake).symm⟩
    · rw [Container.takeSlot_of_open htaken] at htake
      cases htake
  refine h.add (Or.inr ⟨(s.opened, .empty), by simp [hnone], rfl⟩) (Nat.le_succ _) ?_
    (fun _ _ => rfl) ?_ ?_ rfl
  · intro w hw
    obtain rfl : w = (s.opened, .empty) := by simpa [hnone] using hw
    refine ⟨Nat.lt_succ_self _, ?_⟩
    rw [h.unused _ le_rfl]
    rfl
  · intro w hw
    obtain rfl : w = (s.opened, .empty) := by simpa [hnone] using hw
    exact Or.inr le_rfl
  · exact fun _ hend => nomatch hend.1

/-- Something is put into the batch of a writer. -/
theorem Consistent.fill (h : s.Consistent store records) {event : SessionEvent} {writer : Nat}
    {b : Batch} {m : Mutation} (hb : s.writers.lookup writer = some b)
    (hwriter : event.writer? = some writer) (hm : event.puts s.container.schema = some m) :
    Consistent store (records ++ [⟨s.container, event, some (.ok .done)⟩])
      { s with writers := s.writers.map fun w =>
          if w.1 = writer then (writer, b.push m) else w } := by
  obtain ⟨hone, hslot⟩ := h.eq_of_lookup hb
  have hwriters : (s.writers.map fun w => if w.1 = writer then (writer, b.push m) else w) =
      [(writer, b.push m)] := by simp [hone]
  obtain ⟨hlt, hmutations⟩ := h.batches (writer, b) (by simp [hone])
  rw [hwriters]
  refine h.add (Or.inr ⟨_, rfl, hslot⟩) le_rfl ?_ ?_ ?_ ?_ ?_
  · intro w hw
    obtain rfl := List.mem_singleton.1 hw
    refine ⟨hlt, ?_⟩
    show b.mutations ++ [m] = _
    rw [hmutations]
    simp [SessionRecord.queues, hwriter, hm]
  · intro other hother
    have hne : writer ≠ other := (Nat.lt_of_lt_of_le hlt hother).ne
    simp [SessionRecord.queues, hwriter, hne]
  · intro w hw
    obtain rfl := List.mem_singleton.1 hw
    exact Or.inl ⟨(writer, b), by simp [hone], rfl⟩
  · rintro other ⟨hend, -⟩
    rw [SessionEvent.puts_of_ends hend] at hm
    cases hm
  · cases event <;> first | rfl | exact nomatch hm

/-- A write with a batch of its own is made. -/
theorem Consistent.write (h : s.Consistent store records) {holder : Nat} {w : WholeWrite}
    {answer : WriteAnswer} {next : Container}
    (hmade : w.atOnce s.container s.container.base = .ok (answer, next)) :
    Consistent store (records ++ [⟨s.container, .write holder w, some (.ok answer)⟩])
      { s with container := next } := by
  obtain ⟨rfl, -⟩ := WholeWrite.spec_of_atOnce hmade
  refine h.add h.slot le_rfl ?_ (fun _ _ => rfl) (fun w hw => Or.inl ⟨w, hw, rfl⟩)
    (fun _ hend => nomatch hend.1) rfl
  intro w hw
  rw [SessionRecord.queues_of_puts rfl]
  simpa using h.batches w hw

/-- The end of a writer: the slot is free again, and the store is as it was or has accepted the
batch. -/
theorem Consistent.finish (h : s.Consistent store records) {writer : Nat} {b : Batch}
    (hb : s.writers.lookup writer = some b) {c : Container} (hfree : c.batchOpen = false)
    (hevent : r.event.ends? = some writer)
    (hstored : c.store = (r.batch records).foldl Store.apply s.container.store) :
    Consistent store (records ++ [r]) { s.without writer with container := c } := by
  obtain ⟨hone, -⟩ := h.eq_of_lookup hb
  have hwriters : (s.without writer).writers = [] := by simp [without, hone]
  have hqueues := SessionRecord.queues_of_puts (SessionEvent.puts_of_ends hevent r.before.schema)
  refine h.add (Or.inl ⟨hwriters, hfree⟩) le_rfl (by simp [hwriters])
    (fun other _ => hqueues other) (by simp [hwriters]) ?_ hstored
  rintro other ⟨hend, -⟩
  obtain rfl : writer = other := Option.some.inj (hevent.symm.trans hend)
  exact ⟨(h.batches (writer, b) (by simp [hone])).1, by simp [hwriters]⟩

/-- A batch is sent. -/
theorem Consistent.submit (h : s.Consistent store records) {writer : Nat} {b : Batch}
    (hb : s.writers.lookup writer = some b) :
    Consistent store
      (records ++ [⟨s.container, .submit writer,
        some ((s.container.submit b).1.map fun _ => .done)⟩])
      { s.without writer with container := (s.container.submit b).2 } := by
  obtain ⟨hone, -⟩ := h.eq_of_lookup hb
  obtain ⟨-, hmutations⟩ := h.batches (writer, b) (by simp [hone])
  refine h.finish hb (Container.submit_spec _ b).1 rfl ?_
  rw [Container.submit_eq]
  cases hwritten : s.container.freeSlot.written b.mutations with
  | error e => rfl
  | ok next =>
      obtain ⟨-, rfl⟩ := Container.written_eq_ok hwritten
      show b.mutations.foldl Store.apply s.container.store = _
      rw [hmutations]
      rfl

/-- **Every event keeps the invariant.** -/
theorem Consistent.step (h : s.Consistent store records) (event : SessionEvent) :
    (s.step event).2.Consistent store
      (records ++ [⟨s.container, event, (s.step event).1⟩]) := by
  -- what cannot happen changes nothing, nor does what fails before a batch is sent
  have hnever : ∀ event, Consistent store (records ++ [⟨s.container, event, none⟩]) s := by
    intro event
    refine h.idle rfl rfl rfl (fun writer => ?_) (fun writer hend => hend.2 rfl) ?_ <;>
      cases event <;> rfl
  have hfails : ∀ event e, event.ends? = none →
      Consistent store (records ++ [⟨s.container, event, some (.error e)⟩]) s := by
    intro event e hevent
    refine h.idle rfl rfl rfl (fun writer => ?_) (fun writer hend => ?_) ?_
    · cases event <;> rfl
    · exact nomatch hevent.symm.trans hend.1
    · cases event <;> rfl
  cases event with
  | clone holder =>
      rw [Session.step]
      split
      · exact h.idle rfl rfl rfl (fun _ => rfl) (fun _ hend => nomatch hend.1) rfl
      · exact hnever _
  | openBatch holder =>
      rw [Session.step]
      split
      · cases hc : s.container.openBatch s.container.base with
        | error e => exact hfails _ e rfl
        | ok c => exact h.openBatch hc
      · exact hnever _
  | write holder w =>
      rw [Session.step]
      split
      · cases hmade : w.atOnce s.container s.container.base with
        | error e => exact hfails _ e rfl
        | ok made => exact h.write hmade
      · exact hnever _
  | queue writer item =>
      rw [Session.step, Session.fill]
      cases hb : s.writers.lookup writer with
      | none => exact hnever _
      | some b =>
          dsimp only
          rw [Batch.add_eq]
          cases hm : item.mutation s.container.schema with
          | error e => exact hfails _ e rfl
          | ok m => exact h.fill hb rfl (by simp [SessionEvent.puts, hm, Except.toOption])
  | erase writer key =>
      rw [Session.step, Session.fill]
      cases hb : s.writers.lookup writer with
      | none => exact hnever _
      | some b => exact h.fill hb rfl rfl
  | submit writer =>
      rw [Session.step]
      cases hb : s.writers.lookup writer with
      | none => exact hnever _
      | some b => exact h.submit hb
  | discard writer | drop writer =>
      rw [Session.step]
      cases hb : s.writers.lookup writer with
      | none => exact hnever _
      | some b => exact h.finish hb rfl rfl rfl

/-- **Events in any order keep the invariant.** -/
theorem Consistent.run (h : s.Consistent store records) (events : List SessionEvent) :
    (s.run events).2.Consistent store (records ++ (s.run events).1) := by
  induction events generalizing s records with
  | nil =>
      rw [show (s.run []).1 = [] from rfl, List.append_nil]
      exact h
  | cons event events ih =>
      have hrest := ih (h.step event)
      rwa [List.append_assoc] at hrest

/-! ### While a batch is open -/

variable {holder : Nat}

theorem step_openBatch_of_free (hholder : holder < s.clones)
    (hslot : s.container.batchOpen = false) :
    s.step (.openBatch holder) = (some (.ok .done),
      { s with
        container := { s.container with batchOpen := true }
        writers := (s.opened, .empty) :: s.writers
        opened := s.opened + 1 }) := by
  have hopened : s.container.openBatch s.container.base =
      .ok { s.container with batchOpen := true } := Container.takeSlot_of_free hslot
  rw [Session.step, if_pos hholder, hopened]

theorem step_openBatch_of_open (hholder : holder < s.clones)
    (hslot : s.container.batchOpen = true) :
    s.step (.openBatch holder) = (some (.error .batchInProgress), s) := by
  have hrefused : s.container.openBatch s.container.base = .error .batchInProgress :=
    Container.takeSlot_of_open hslot
  rw [Session.step, if_pos hholder, hrefused]

/-- A write with a batch of its own disturbs no other batch. -/
theorem step_write_of_open (hholder : holder < s.clones) (hslot : s.container.batchOpen = true)
    (w : WholeWrite) : (s.step (.write holder w)).2 = s ∧
      (w.Attempts s.container →
        (s.step (.write holder w)).1 = some (.error .batchInProgress)) := by
  rw [Session.step, if_pos hholder]
  constructor
  · cases hmade : w.atOnce s.container s.container.base with
    | error e => rfl
    | ok made =>
        obtain ⟨answer, next⟩ := made
        obtain rfl := (WholeWrite.spec_of_atOnce hmade).2 hslot
        rfl
  · intro hattempts
    rw [WholeWrite.atOnce_of_open hslot hattempts]
    rfl

/-- What needs a writer that does not exist cannot happen. -/
theorem step_of_gone {writer : Nat} (hgone : ∀ w ∈ s.writers, w.1 ≠ writer)
    {event : SessionEvent} (hevent : event.writer? = some writer) : s.step event = (none, s) := by
  have hlookup : s.writers.lookup writer = none :=
    List.lookup_eq_none_iff.2 fun w hw => bne_iff_ne.2 (hgone w hw).symm
  cases event with
  | clone _ | openBatch _ | write _ _ => cases hevent
  | queue _ _ | erase _ _ =>
      obtain rfl := Option.some.inj hevent
      rw [Session.step, Session.fill, hlookup]
  | submit _ | discard _ | drop _ =>
      obtain rfl := Option.some.inj hevent
      rw [Session.step, hlookup]

/-! ### Writes event by event -/

theorem run_append (s : Session) (events others : List SessionEvent) :
    (s.run (events ++ others)).2 = ((s.run events).2.run others).2 := by
  induction events generalizing s with
  | nil => rfl
  | cons event events ih => exact ih (s.step event).2

/-- The only writer is given one thing more. -/
theorem step_fill {writer : Nat} {b : Batch} (hone : s.writers = [(writer, b)])
    {event : SessionEvent} (hwriter : event.writer? = some writer) (hends : event.ends? = none) :
    (s.step event).2 = { s with
      writers := [(writer, ⟨b.mutations ++ (event.puts s.container.schema).toList⟩)] } := by
  have hlookup : s.writers.lookup writer = some b := by simp [hone]
  have hsame : s = { s with writers := [(writer, ⟨b.mutations ++ []⟩)] } := by
    rw [List.append_nil]
    exact congrArg (fun writers => { s with writers := writers }) hone
  cases event with
  | queue _ item =>
      obtain rfl := Option.some.inj hwriter
      rw [Session.step, Session.fill, hlookup]
      dsimp only
      rw [Batch.add_eq, SessionEvent.puts]
      cases item.mutation s.container.schema with
      | error e => exact hsame
      | ok m => simp [hone, Except.map, Except.toOption, Batch.push]
  | erase _ key =>
      obtain rfl := Option.some.inj hwriter
      rw [Session.step, Session.fill, hlookup]
      simp [hone, SessionEvent.puts, Batch.push]
  | clone _ | openBatch _ | write _ _ => cases hwriter
  | submit _ | discard _ | drop _ => cases hends

/-- The only writer is given one thing after another. -/
theorem run_fill {writer : Nat} {b : Batch} (hone : s.writers = [(writer, b)])
    {events : List SessionEvent}
    (hevents : ∀ event ∈ events, event.writer? = some writer ∧ event.ends? = none) :
    (s.run events).2 = { s with
      writers :=
        [(writer, ⟨b.mutations ++ events.filterMap (SessionEvent.puts s.container.schema)⟩)] } := by
  induction events generalizing s b with
  | nil =>
      rw [List.filterMap_nil, List.append_nil]
      exact congrArg (fun writers => { s with writers := writers }) hone
  | cons event events ih =>
      obtain ⟨⟨hwriter, hends⟩, hevents⟩ := List.forall_mem_cons.1 hevents
      show ((s.step event).2.run events).2 = _
      rw [step_fill hone hwriter hends, ih rfl hevents, List.filterMap_cons]
      cases event.puts s.container.schema <;> simp

end Session

namespace WholeWrite

/-- What a write puts into its batch, one by one. -/
def fill (c : Container) (writer : Nat) : WholeWrite → List SessionEvent
  | put key value | putWithoutGet key value => [.queue writer (.put key value)]
  | remove key => [.queue writer (.remove key)]
  | putAll pairs => pairs.map fun pair => .queue writer (.put pair.1 pair.2)
  | importAll change pairs =>
    pairs.map fun pair => .queue writer (.put (change pair).1 (change pair).2)
  | clear =>
    match c.base.scan c.store none .latest with
    | .ok items => items.filterMap fun item => item.toOption.map fun e => .erase writer e.key
    | .error _ => []

/-- A write, event by event: it opens a batch, fills it, and sends it, or drops it if something
cannot be encoded. -/
def events (c : Container) (holder writer : Nat) (w : WholeWrite) : List SessionEvent :=
  .openBatch holder :: w.fill c writer ++
    [if (w.mutations c c.base).isOk then .submit writer else .drop writer]

variable {c : Container} {w : WholeWrite} {writer : Nat}

theorem writer_of_mem_fill : ∀ event ∈ w.fill c writer,
    event.writer? = some writer ∧ event.ends? = none := by
  intro event hevent
  cases w with
  | put | putWithoutGet | remove =>
      obtain rfl := List.mem_singleton.1 hevent
      exact ⟨rfl, rfl⟩
  | putAll pairs | importAll change pairs =>
      obtain ⟨pair, -, rfl⟩ := List.mem_map.1 hevent
      exact ⟨rfl, rfl⟩
  | clear =>
      rw [fill] at hevent
      split at hevent
      · obtain ⟨item, -, hitem⟩ := List.mem_filterMap.1 hevent
        obtain ⟨e, -, rfl⟩ := Option.map_eq_some_iff.1 hitem
        exact ⟨rfl, rfl⟩
      · cases hevent

/-- What a write puts into its batch are the mutations that it sends. -/
theorem filterMap_fill {batch : List Mutation} (h : w.mutations c c.base = .ok batch) :
    (w.fill c writer).filterMap (SessionEvent.puts c.schema) = batch := by
  cases w with
  | put key value | putWithoutGet key value | remove key =>
      obtain ⟨m, hm, rfl⟩ := map_eq_ok.1 h
      simp [fill, SessionEvent.puts, BatchItem.mutation, hm, Except.toOption]
  | putAll pairs | importAll change pairs =>
      rw [fill, List.filterMap_map]
      exact Container.filterMap_of_mapM h
  | clear =>
      have h : Container.removalsOf (c.base.scan c.store none .latest) = .ok batch := h
      obtain ⟨items, hitems, h⟩ := bind_eq_ok.1 h
      rw [fill, hitems, ← Container.filterMap_of_mapM h]
      dsimp only
      rw [List.filterMap_filterMap]
      refine List.filterMap_congr fun item _ => ?_
      cases item <;> rfl

end WholeWrite

namespace Session

variable {s : Session} {holder : Nat}

/-- **A write with a batch of its own is some of the other events**, one after the other. -/
theorem run_events (hholder : holder < s.clones) (hnone : s.writers = [])
    (hslot : s.container.batchOpen = false) {w : WholeWrite} (hattempts : w.Attempts s.container) :
    (s.run (w.events s.container holder s.opened)).2 =
      { (s.step (.write holder w)).2 with opened := s.opened + 1 } := by
  obtain ⟨⟨store, schema, batchOpen⟩, clones, writers, opened⟩ := s
  obtain rfl : writers = [] := hnone
  obtain rfl : batchOpen = false := hslot
  let c : Container := ⟨store, schema, false⟩
  let batch := (w.fill c opened).filterMap (SessionEvent.puts schema)
  have hfilled : (run ⟨c, clones, [], opened⟩ (.openBatch holder :: w.fill c opened)).2 =
      ⟨⟨store, schema, true⟩, clones, [(opened, ⟨batch⟩)], opened + 1⟩ := by
    show ((step ⟨c, clones, [], opened⟩ (.openBatch holder)).2.run (w.fill c opened)).2 = _
    rw [step_openBatch_of_free hholder rfl, run_fill rfl WholeWrite.writer_of_mem_fill]
    rfl
  obtain ⟨answer, hreads⟩ := hattempts.reads
  have hwrite : w.atOnce c c.base =
      ((w.mutations c c.base).bind c.written).map (answer, ·) := by
    rw [WholeWrite.atOnce_eq rfl, hreads, ← Container.writeAll_eq rfl]
    rfl
  rw [WholeWrite.events, run_append, hfilled, Session.step, if_pos hholder, hwrite]
  cases hbatch : w.mutations c c.base with
  | error e =>
      show (step ⟨⟨store, schema, true⟩, clones, [(opened, ⟨batch⟩)], opened + 1⟩
        (.drop opened)).2 = _
      simp [Session.step, without, Container.discard, Container.freeSlot, Container.keep,
        Except.map, Except.bind]
  | ok sent =>
      have hsent : batch = sent := WholeWrite.filterMap_fill hbatch
      rw [hsent]
      show (step ⟨⟨store, schema, true⟩, clones, [(opened, ⟨sent⟩)], opened + 1⟩
          (.submit opened)).2 =
        ⟨(c.keep ((c.written sent).map (answer, ·))).2, clones, [], opened + 1⟩
      have hsubmit : (Container.submit ⟨store, schema, true⟩ ⟨sent⟩).2 =
          (c.keep ((c.written sent).map (answer, ·))).2 := by
        rw [Container.submit_eq]
        show (c.keep ((c.written sent).map ((), ·))).2 = _
        cases c.written sent <;> rfl
      simp [Session.step, without, hsubmit]

/-- **One batch at a time, nothing lost and nothing doubled.**  Clones of a map open batches, fill,
send, discard and drop them, and write with batches of their own, in any order.  The slot is taken
exactly while one writer exists, and never are there two.  If there is none every clone can open a
batch, which is empty, and a write with a batch of its own leads where its own events lead: to open
a batch, fill it, and send or drop it.  If there is one no clone can open a batch, and every write
that gets that far fails, while the writer and all else stay as they are.  A batch holds what its
writer put into it, in order.  An event changes the store only by the batch that is accepted at it:
what was put into the batch that is sent, or the batch of a write of its own.  A writer whose batch
was sent, discarded or dropped is gone, and nothing can happen to it any more.  So the store holds
the accepted batches, one after the other, and nothing else. -/
theorem one_batch (store : Store) (schema : Schema) (events : List SessionEvent) :
    let records := ((start store schema).run events).1
    let s := ((start store schema).run events).2
    (s.container.batchOpen = true ↔ s.writers.length = 1) ∧ s.writers.length ≤ 1 ∧
    (∀ holder < s.clones,
      (s.writers = [] → s.step (.openBatch holder) = (some (.ok .done),
        { s with
          container := { s.container with batchOpen := true }
          writers := [(s.opened, .empty)]
          opened := s.opened + 1 }) ∧
        ∀ w : WholeWrite, w.Attempts s.container →
          (s.run (w.events s.container holder s.opened)).2 =
            { (s.step (.write holder w)).2 with opened := s.opened + 1 }) ∧
      (s.writers ≠ [] →
        s.step (.openBatch holder) = (some (.error .batchInProgress), s) ∧
        ∀ w : WholeWrite, (s.step (.write holder w)).2 = s ∧
          (w.Attempts s.container →
            (s.step (.write holder w)).1 = some (.error .batchInProgress)))) ∧
    (∀ writer b, (writer, b) ∈ s.writers → b.mutations = queued writer records) ∧
    (∀ event, (s.step event).2.container.store =
      (SessionRecord.batch records ⟨s.container, event, (s.step event).1⟩).foldl Store.apply
        s.container.store) ∧
    (∀ r ∈ records, ∀ writer, r.Ends writer → ∀ event, event.writer? = some writer →
      s.step event = (none, s)) ∧
    s.container.store = (accepted [] records).flatten.foldl Store.apply store := by
  intro records s
  have h : s.Consistent store records := (consistent_start store schema).run events
  have hslot : (s.container.batchOpen = true ↔ s.writers.length = 1) ∧ s.writers.length ≤ 1 := by
    rcases h.slot with ⟨hnone, hslot⟩ | ⟨w, hone, hslot⟩
    · simp [hnone, hslot]
    · simp [hone, hslot]
  refine ⟨hslot.1, hslot.2, fun holder hholder => ⟨fun hnone => ?_, fun hsome => ?_⟩, ?_, ?_, ?_,
    h.stored⟩
  · have hfree : s.container.batchOpen = false := by
      rw [Bool.eq_false_iff, ne_eq, hslot.1, hnone]
      exact Nat.zero_ne_one
    refine ⟨?_, fun w => run_events hholder hnone hfree⟩
    rw [step_openBatch_of_free hholder hfree, hnone]
  · have htaken : s.container.batchOpen = true :=
      hslot.1.2 (Nat.le_antisymm hslot.2 (List.length_pos_iff.2 hsome))
    exact ⟨step_openBatch_of_open hholder htaken, step_write_of_open hholder htaken⟩
  · exact fun writer b hb => (h.batches (writer, b) hb).2
  · intro event
    have hstored := (h.step event).stored
    rw [accepted_append, List.flatten_append, List.foldl_append, ← h.stored] at hstored
    simpa [accepted] using hstored
  · exact fun r hr writer hend event hevent => step_of_gone (h.ended r hr writer hend).2 hevent

end Session

end Strata
