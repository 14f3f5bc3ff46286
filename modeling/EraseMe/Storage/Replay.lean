import EraseMe.Library.Sorted
import EraseMe.Storage.Rebuild

/-!
# Replay order

Events are replayed in the order of their stored texts, ties by id.  The texts mix several layouts,
and their order is not always the order of the instants they denote: `noneInverted` says when it
is.  Rows written by the store itself in the years `0..9999` are never inverted, and a row that is
not before any other of its request is replayed last.
-/

namespace EraseMe.Storage

open Chrono Json Sqlite

variable {τ : Type}

/-! ### Appended rows -/

theorem Source.fromWire_asStr {s : Source} (h : ∀ v, s ≠ unknown v) : fromWire s.asStr = s := by
  cases s with
  | unknown value => exact absurd rfl (h value)
  | _ => decide

theorem payloadText_eq (payload : Map) :
    payloadText payload = .document (.object (sortedMap payload)) := by
  cases payload with
  | nil => rfl
  | cons f payload => rw [payloadText, List.isEmpty_cons, ← goMapOrder_object]; rfl

theorem decodes_sortedMap (payload : Map) :
    decodes (.object (sortedMap payload)) = decodes (.object payload) := by
  rw [← goMapOrder_object, decodes, decodes, depth_goMapOrder]

/-- What an appended row decodes to: the members are sorted and the fractions are gone. -/
def appendedEvent (id requestId : ℤ) (eventType : EventType) (payload : Map) (source : Source)
    (occurredAt recordedAt : DateTime) : EventRecord where
  id := id
  requestId := requestId
  occurredAt := occurredAt.trunc
  recordedAt := recordedAt.trunc
  eventType := eventType
  payload := sortedMap payload
  source := source

/-- An appended row decodes unless its payload is nested too deep. -/
theorem decodeEvent_eventColumns (id requestId : ℤ) {eventType : EventType} (payload : Map)
    {source : Source} (occurredAt recordedAt : DateTime) (ht : ∀ v, eventType ≠ .unknown v)
    (hs : ∀ v, source ≠ .unknown v) :
    decodeEvent (id, eventColumns requestId eventType payload source occurredAt recordedAt) =
      if decodes (.object payload) then
        some (appendedEvent id requestId eventType payload source occurredAt recordedAt)
      else none := by
  unfold decodeEvent eventColumns
  simp only [Timeutil.parseTimestamp, Timeutil.parse_formatSql, payloadText_eq, decodePayload,
    decodes_sortedMap, EventType.fromWire_asStr ht, Source.fromWire_asStr hs]
  by_cases h : decodes (.object payload) = true
  · rw [if_pos h, if_pos h]
    rfl
  · rw [if_neg h, if_neg h]
    rfl

/-! ### The order of rows -/

instance : Std.Total ReplayLe := ⟨fun a b => by
  rcases lt_trichotomy a.2.occurredAt b.2.occurredAt with h | h | h
  · exact Or.inl (Or.inl h)
  · rcases le_total a.1 b.1 with hid | hid
    · exact Or.inl (Or.inr ⟨h, hid⟩)
    · exact Or.inr (Or.inr ⟨h.symm, hid⟩)
  · exact Or.inr (Or.inl h)⟩

instance : IsTrans (ℤ × EventColumns) ReplayLe := ⟨fun a b c hab hbc => by
  rcases hab with hab | ⟨hab, hid⟩
  · rcases hbc with hbc | ⟨hbc, -⟩
    · exact Or.inl (hab.trans hbc)
    · exact Or.inl (hbc ▸ hab)
  · rcases hbc with hbc | ⟨hbc, hid'⟩
    · exact Or.inl (hab ▸ hbc)
    · exact Or.inr ⟨hab.trans hbc, hid.trans hid'⟩⟩

theorem id_eq_of_replayLe {a b : ℤ × EventColumns} (hab : ReplayLe a b) (hba : ReplayLe b a) :
    a.1 = b.1 := by
  rcases hab with hab | ⟨hab, hid⟩
  · rcases hba with hba | ⟨hba, -⟩
    · exact absurd hba hab.asymm
    · exact absurd hba.symm hab.ne
  · rcases hba with hba | ⟨-, hid'⟩
    · exact absurd hab.symm hba.ne
    · exact le_antisymm hid hid'

theorem replayLe_antisymm (db : Store) {a b : ℤ × EventColumns} (ha : a ∈ db.events.rows)
    (hb : b ∈ db.events.rows) (hab : ReplayLe a b) (hba : ReplayLe b a) : a = b :=
  row_eq_of_id db.events ha hb (id_eq_of_replayLe hab hba)

/-- Rows of one request and a new one have an order. -/
theorem replayLe_antisymm_withEvent (db : Store) (row : EventColumns) (requestId : ℤ) :
    ∀ a ∈ db.eventRows requestId ++ [(db.events.seq + 1, row)],
      ∀ b ∈ db.eventRows requestId ++ [(db.events.seq + 1, row)],
        ReplayLe a b → ReplayLe b a → a = b := by
  have hmem : ∀ a ∈ db.eventRows requestId ++ [(db.events.seq + 1, row)],
      a ∈ (db.withEvent row).events.rows := by
    intro a ha
    rw [withEvent_events, Table.insert_rows]
    rcases List.mem_append.1 ha with ha | ha
    · exact List.mem_append_left _ (mem_eventRows.1 ha).1
    · exact List.mem_append_right _ ha
  exact fun a ha b hb => replayLe_antisymm (db.withEvent row) (hmem a ha) (hmem b hb)

/-- A new row is replayed somewhere between the others. -/
theorem exists_replayed_withEvent (db : Store) {row : EventColumns} {requestId : ℤ}
    (hrequest : row.requestId = requestId) :
    ∃ l₁ l₂, db.replayed requestId = l₁ ++ l₂ ∧ (db.withEvent row).replayed requestId =
      l₁ ++ ((decodeEvent (db.events.seq + 1, row)).toList ++ l₂) := by
  obtain ⟨l₁, l₂, hold, hnew⟩ := Sorted.exists_insertionSort_append_singleton
    (replayLe_antisymm_withEvent db row requestId)
  refine ⟨l₁.filterMap decodeEvent, l₂.filterMap decodeEvent, ?_, ?_⟩
  · rw [← List.filterMap_append, ← hold]
    rfl
  · rw [Store.replayed, Store.replayRows, eventRows_withEvent, if_pos hrequest, hnew,
      List.filterMap_append, ← List.singleton_append, List.filterMap_append]
    rfl

/-- A new row that is not before any other of its request is replayed last. -/
theorem replayed_withEvent_last {db : Store} {row : EventColumns} {requestId : ℤ}
    (hrequest : row.requestId = requestId)
    (hlast : ∀ a ∈ db.eventRows requestId, a.2.occurredAt ≤ row.occurredAt) :
    (db.withEvent row).replayed requestId =
      db.replayed requestId ++ (decodeEvent (db.events.seq + 1, row)).toList := by
  have hsort : (db.withEvent row).replayRows requestId =
      db.replayRows requestId ++ [(db.events.seq + 1, row)] := by
    rw [Store.replayRows, eventRows_withEvent, if_pos hrequest]
    refine Sorted.insertionSort_append_singleton (replayLe_antisymm_withEvent db row requestId)
      fun b hb => ?_
    rcases (hlast b hb).lt_or_eq with h | h
    · exact Or.inl h
    · refine Or.inr ⟨h, ?_⟩
      have := db.events.le_seq b (mem_eventRows.1 hb).1
      change b.1 ≤ db.events.seq + 1
      omega
  rw [Store.replayed, hsort, List.filterMap_append]
  rfl

/-- An appended event whose row is not before any other of its request is replayed last. -/
theorem replayed_eventColumns_last {db : Store} {requestId : ℤ} {eventType : EventType}
    {payload : Map} {source : Source} {occurredAt : DateTime} (recordedAt : DateTime)
    (ht : ∀ v, eventType ≠ .unknown v) (hs : ∀ v, source ≠ .unknown v)
    (hdecodes : decodes (.object payload) = true)
    (hlast : ∀ a ∈ db.eventRows requestId, a.2.occurredAt ≤ Timeutil.formatSql occurredAt) :
    (db.withEvent (eventColumns requestId eventType payload source occurredAt recordedAt)).replayed
        requestId = db.replayed requestId ++
      [appendedEvent (db.events.seq + 1) requestId eventType payload source occurredAt
        recordedAt] := by
  have hid : (eventColumns requestId eventType payload source occurredAt recordedAt).requestId =
    requestId := rfl
  rw [replayed_withEvent_last hid hlast, decodeEvent_eventColumns _ _ _ _ _ ht hs, if_pos hdecodes]
  rfl

/-! ### Texts and instants -/

/-- Events in the order of their instants, ties by id. -/
def InstantLe (x y : EventRecord) : Prop :=
  x.occurredAt < y.occurredAt ∨ x.occurredAt = y.occurredAt ∧ x.id ≤ y.id

instance : DecidableRel InstantLe := fun x y =>
  inferInstanceAs (Decidable (x.occurredAt < y.occurredAt ∨
    x.occurredAt = y.occurredAt ∧ x.id ≤ y.id))

/-- The smaller text denotes the later instant, or the same instant under a larger id. -/
def Inverted (a b : ℤ × EventColumns) : Prop :=
  a.2.occurredAt < b.2.occurredAt ∧ ∃ s t,
    Timeutil.parseTimestamp a.2.occurredAt = .ok s ∧
    Timeutil.parseTimestamp b.2.occurredAt = .ok t ∧ (t < s ∨ t = s ∧ b.1 < a.1)

/-- No two of the rows that decode are inverted. -/
def NoneInverted (rows : List (ℤ × EventColumns)) : Prop :=
  ∀ a ∈ rows, ∀ b ∈ rows, decodeEvent a ≠ none → decodeEvent b ≠ none → ¬ Inverted a b

theorem decodeEvent_occurredAt {row : ℤ × EventColumns} {event : EventRecord}
    (h : decodeEvent row = some event) :
    Timeutil.parseTimestamp row.2.occurredAt = .ok event.occurredAt := by
  unfold decodeEvent at h
  cases hp : Timeutil.parseTimestamp row.2.occurredAt with
  | error e => rw [hp] at h; cases h
  | ok t =>
    rw [hp] at h
    simp only [Except.toOption, Option.bind_eq_bind, Option.bind_some, Option.bind_eq_some_iff] at h
    obtain ⟨recordedAt, -, payload, -, h⟩ := h
    cases h
    rfl

/-- Two rows that decode come in the order of their instants unless they are inverted. -/
theorem instantLe_iff_not_inverted {a b : ℤ × EventColumns} {x y : EventRecord}
    (hab : ReplayLe a b) (hx : decodeEvent a = some x) (hy : decodeEvent b = some y) :
    InstantLe x y ↔ ¬ Inverted a b := by
  have hs := decodeEvent_occurredAt hx
  have ht := decodeEvent_occurredAt hy
  have hid : x.id = a.1 := decodeEvent_id hx
  have hid' : y.id = b.1 := decodeEvent_id hy
  constructor
  · rintro hle ⟨-, s, t, hs', ht', hinv⟩
    rw [hs] at hs'
    rw [ht] at ht'
    cases hs'
    cases ht'
    rw [InstantLe, hid, hid'] at hle
    rcases hle with hle | ⟨hle, hle'⟩
    · rcases hinv with hinv | ⟨hinv, -⟩
      · exact hle.asymm hinv
      · exact hle.ne hinv.symm
    · rcases hinv with hinv | ⟨-, hinv⟩
      · exact hinv.ne hle.symm
      · omega
  · intro hno
    rcases hab with hab | ⟨hab, hle⟩
    · rw [InstantLe, hid, hid']
      by_contra hcon
      refine hno ⟨hab, _, _, hs, ht, ?_⟩
      rw [not_or, not_lt] at hcon
      rcases hcon.1.lt_or_eq with h | h
      · exact Or.inl h
      · exact Or.inr ⟨h, by by_contra hge; exact hcon.2 ⟨h.symm, by omega⟩⟩
    · -- one text, so one instant
      rw [hab, ht] at hs
      exact Or.inr ⟨(Except.ok.inj hs).symm, by omega⟩

/-- The decoded rows of a query in replay order are in the order of their instants exactly when no
two rows are inverted. -/
theorem pairwise_instantLe_iff {db : Store} {rows : List (ℤ × EventColumns)}
    (hrows : ∀ a ∈ rows, a ∈ db.events.rows) :
    ((rows.insertionSort ReplayLe).filterMap decodeEvent).Pairwise InstantLe ↔
      NoneInverted rows := by
  rw [Sorted.pairwise_filterMap_iff (R := InstantLe) (List.pairwise_insertionSort ReplayLe rows)
    (fun a ha b hb => replayLe_antisymm db (hrows a ((List.mem_insertionSort _).1 ha))
      (hrows b ((List.mem_insertionSort _).1 hb)))
    (fun x => Or.inr ⟨rfl, le_refl _⟩)]
  simp only [List.mem_insertionSort]
  constructor
  · intro h a ha b hb hda hdb hinv
    obtain ⟨x, hx⟩ := Option.ne_none_iff_exists'.1 hda
    obtain ⟨y, hy⟩ := Option.ne_none_iff_exists'.1 hdb
    have hab : ReplayLe a b := Or.inl hinv.1
    exact (instantLe_iff_not_inverted hab hx hy).1 (h a ha b hb hab x y hx hy) hinv
  · intro h a ha b hb hab x y hx hy
    exact (instantLe_iff_not_inverted hab hx hy).2
      (h a ha b hb (by rw [hx]; simp) (by rw [hy]; simp))

/-- Rows with texts the store writes, in the years `0..9999`. -/
theorem noneInverted_of_formatSql {rows : List (ℤ × EventColumns)}
    (h : ∀ a ∈ rows, ∃ t, FourDigitYear t ∧ a.2.occurredAt = Timeutil.formatSql t) :
    NoneInverted rows := by
  rintro a ha b hb - - ⟨hlt, s, t, hs, ht, hinv⟩
  obtain ⟨s', hs4, hs'⟩ := h a ha
  obtain ⟨t', ht4, ht'⟩ := h b hb
  rw [hs', Timeutil.parseTimestamp, Timeutil.parse_formatSql] at hs
  rw [ht', Timeutil.parseTimestamp, Timeutil.parse_formatSql] at ht
  cases hs
  cases ht
  rw [hs', ht', Timeutil.formatSql_lt_iff hs4 ht4] at hlt
  rcases hinv with hinv | ⟨hinv, -⟩
  · exact hlt.asymm hinv
  · exact hlt.ne hinv.symm

/-- A query that succeeds returns the decodable rows, and returns them in the order of their
instants exactly when no two of them are inverted. -/
theorem events_ordered_iff (c : Conn Store τ) (hreply : Faultless (c.replies 0))
    (requestId afterEventId : ℤ) :
    let rows := c.db.eventRows requestId
    let later := rows.filter fun row => afterEventId > 0 → row.1 > afterEventId
    (∃ events, (getEvents requestId afterEventId c).1 = .ok events ∧
      events.Perm (later.filterMap decodeEvent) ∧
      (events.Pairwise InstantLe ↔ NoneInverted later)) ∧
    ∃ events, (loadEvents requestId c).1 = .ok events ∧
      events.Perm (rows.filterMap decodeEvent) ∧
      (events.Pairwise InstantLe ↔ NoneInverted rows) := by
  intro rows later
  have hrows : ∀ a ∈ rows, a ∈ c.db.events.rows := fun a ha => (mem_eventRows.1 ha).1
  have hlater : ∀ a ∈ later, a ∈ c.db.events.rows := fun a ha =>
    hrows a (List.mem_filter.1 ha).1
  have hperm : ∀ l : List (ℤ × EventColumns),
      ((l.insertionSort ReplayLe).filterMap decodeEvent).Perm (l.filterMap decodeEvent) :=
    fun l => (List.perm_insertionSort _ _).filterMap _
  constructor
  · refine ⟨_, ?_, hperm later, pairwise_instantLe_iff hlater⟩
    rw [getEvents, query, statement, show (c.replies 0).error = none from hreply]
  · refine ⟨_, ?_, hperm rows, pairwise_instantLe_iff hrows⟩
    rw [loadEvents, Db.mapError, query, statement, show (c.replies 0).error = none from hreply]
    rfl

/-- A note of 23:00 in the SQL form, and one of 01:00 of the same day in the ISO form. -/
def mixedLayouts : Store :=
  { Store.fresh with
    requests := Table.empty.insert ⟨"acme", "email", "spring", "2026-01-01 00:00:00", "GDPR", "", ""⟩
    events := (Table.empty.insert ⟨1, "2026-01-01 23:00:00", "2026-01-01 23:00:00", "NOTE_ADDED",
      .blank, "user"⟩).insert ⟨1, "2026-01-01T01:00:00", "2026-01-01 23:00:00", "NOTE_ADDED",
      .blank, "user"⟩ }

theorem events_ordered_mixedLayouts :
    (∃ events, (getEvents 1 1 (mixedLayouts.connect : Conn Store Unit)).1 = .ok events ∧
      events.Pairwise InstantLe) ∧
    ∃ events, (loadEvents 1 (mixedLayouts.connect : Conn Store Unit)).1 = .ok events ∧
      ¬ events.Pairwise InstantLe := by
  obtain ⟨⟨later, hlater, -, hiff⟩, events, hevents, -, hiff'⟩ :=
    events_ordered_iff (mixedLayouts.connect : Conn Store Unit) rfl 1 1
  refine ⟨⟨later, hlater, hiff.2 ?_⟩, events, hevents, fun h => ?_⟩
  · -- only the second row is left
    have hone : ∀ row ∈ (mixedLayouts.eventRows 1).filter fun row => (1 : ℤ) > 0 → row.1 > 1,
        row.2.occurredAt = "2026-01-01T01:00:00" := by decide
    rintro a ha b hb - - ⟨hlt, -⟩
    rw [hone a ha, hone b hb] at hlt
    exact lt_irrefl _ hlt
  · refine hiff'.1 h _ List.mem_cons_self _ (List.mem_cons_of_mem _ List.mem_cons_self) ?_ ?_
      ⟨by decide, _, _, rfl, rfl, Or.inl (by decide)⟩
    · exact Option.ne_none_iff_exists'.2 ⟨_, rfl⟩
    · exact Option.ne_none_iff_exists'.2 ⟨_, rfl⟩

/-- Every text parses, and the note of 23:00 comes first. -/
theorem events_not_ordered_mixedLayouts :
    (∀ row ∈ mixedLayouts.eventRows 1,
      (Timeutil.parseTimestamp row.2.occurredAt).toOption.isSome) ∧
    ∃ events, (getEvents 1 0 (mixedLayouts.connect : Conn Store Unit)).1 = .ok events ∧
      (loadEvents 1 (mixedLayouts.connect : Conn Store Unit)).1 = .ok events ∧
      ¬ events.Pairwise InstantLe := by
  refine ⟨by decide, _, rfl, rfl, by decide⟩

end EraseMe.Storage
