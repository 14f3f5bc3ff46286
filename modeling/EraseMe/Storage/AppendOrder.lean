import EraseMe.Storage.Replay

/-!
# The order of appends

Two stores that log the same events of a request in different orders project the same state, when
the events differ in their second: the log is replayed in the order of the instants, and the fold
reads nothing of an event but its type, its payload and its instant, except for the last event id.

A log without replayable events has no last event time, and the row then keeps the time of the
statement that wrote it.
-/

namespace EraseMe.Storage

open Chrono Json Sqlite

variable {τ : Type} (arch : TargetArch)

/-! ### What the fold reads -/

/-- The state without its last event id. -/
def ProjectionState.forget (state : ProjectionState) : ProjectionState :=
  { state with lastEventId := 0 }

/-- What the fold reads of an event, apart from its id. -/
def EventRecord.bare (event : EventRecord) : EventRecord :=
  { event with id := 0, requestId := 0, recordedAt := epoch, source := .system }

theorem effect_forget (event : EventRecord) (state : ProjectionState) :
    (effect arch event state).forget = effect arch event.bare state.forget := by
  cases h : event.eventType with
  | sent =>
    rw [effect_eq_sent arch event state h, effect_eq_sent arch event.bare state.forget h]
    rfl
  | _ => simp [effect, EventRecord.bare, ProjectionState.forget, h]

theorem replayEvent_forget (state : ProjectionState) (event : EventRecord) :
    (replayEvent arch state event).forget = replayEvent arch state.forget event.bare := by
  by_cases h : event.Skipped
  · have h' : event.bare.Skipped := h
    rw [replayEvent_of_skipped arch h, replayEvent_of_skipped arch h']
  · have h' : ¬ event.bare.Skipped := h
    rw [replayEvent_of_not_skipped arch h, replayEvent_of_not_skipped arch h', effect_forget]
    rfl

/-- The fold of what is read of the events is the folded state without its last event id. -/
theorem foldEvents_forget (requestId : ℤ) (events : List EventRecord) :
    (foldEvents arch requestId events).forget =
      foldEvents arch requestId (events.map EventRecord.bare) := by
  induction events using List.reverseRecOn with
  | nil => rfl
  | append_singleton events event ih =>
    rw [foldEvents_append, replayEvent_forget, ih, List.map_append, List.map_singleton,
      foldEvents_append]

/-! ### Logs of appended events -/

/-- One call of `appendAndProject`. -/
structure AppendCall where
  requestId : ℤ
  eventType : EventType
  payload : Map
  source : Source
  occurredAt : DateTime

/-- Append and project. -/
def AppendCall.run (call : AppendCall) : Db Store τ ProjectionError (ℤ × ProjectionState) :=
  appendAndProject arch call.requestId call.eventType call.payload call.source call.occurredAt

/-- The row of a call. -/
def AppendCall.row (call : AppendCall) (recordedAt : DateTime) : EventColumns :=
  eventColumns call.requestId call.eventType call.payload call.source call.occurredAt recordedAt

/-- What the fold reads of the event of a call. -/
def AppendCall.content (call : AppendCall) : EventRecord :=
  (appendedEvent 0 call.requestId call.eventType call.payload call.source call.occurredAt
    epoch).bare

/-- The event of the call decodes and is not at the zero instant. -/
def AppendCall.Replayable (call : AppendCall) : Prop :=
  decodes (.object call.payload) = true ∧ isGoZeroTime call.occurredAt.trunc = false

instance (call : AppendCall) : Decidable call.Replayable :=
  inferInstanceAs (Decidable (decodes (.object call.payload) = true ∧
    isGoZeroTime call.occurredAt.trunc = false))

/-- Run the calls in turn; the calls that succeeded and the connection after them. -/
def runAppends : List AppendCall → Conn Store τ → List AppendCall × Conn Store τ
  | [], c => ([], c)
  | call :: calls, c =>
      match call.run arch c with
      | (.ok _, c') => (call :: (runAppends calls c').1, (runAppends calls c').2)
      | (.error _, c') => runAppends calls c'

theorem runAppends_sublist (todo : List AppendCall) (c : Conn Store τ) :
    (runAppends arch todo c).1.Sublist todo := by
  induction todo generalizing c with
  | nil => exact List.Sublist.slnil
  | cons call todo ih =>
    rw [runAppends]
    generalize call.run arch c = result
    obtain ⟨r, c'⟩ := result
    cases r with
    | ok a => exact (ih c').cons_cons call
    | error e => exact (ih c').cons call

/-- What each append keeps, a run keeps. -/
theorem runAppends_keeps {P : Store → Prop} (todo : List AppendCall) (c : Conn Store τ)
    (hstep : ∀ call ∈ todo, ∀ db, P db → Appendable db call.requestId call.eventType call.source →
      ∀ recordedAt now,
        P ((db.withEvent (call.row recordedAt)).projected arch call.requestId now))
    (h : P c.db) : P (runAppends arch todo c).2.db := by
  induction todo generalizing c with
  | nil => exact h
  | cons call todo ih =>
    have hspec := (appendAndProject_spec (A := AnyReply) arch c.db c.trace call.requestId
      call.eventType call.payload call.source call.occurredAt).run c ⟨rfl, rfl⟩
    rw [← AppendCall.run] at hspec
    rw [runAppends]
    generalize call.run arch c = result at hspec
    obtain ⟨r, c'⟩ := result
    have htail : ∀ call ∈ todo, ∀ db, P db →
        Appendable db call.requestId call.eventType call.source → ∀ recordedAt now,
          P ((db.withEvent (call.row recordedAt)).projected arch call.requestId now) :=
      fun call hcall => hstep call (List.mem_cons_of_mem _ hcall)
    cases r with
    | error e =>
      obtain ⟨-, hdb, -⟩ := hspec
      exact ih c' htail (hdb ▸ h)
    | ok a =>
      obtain ⟨-, hap, recordedAt, now, hdb⟩ := hspec
      refine ih c' htail ?_
      rw [hdb]
      exact hstep call (List.mem_cons_self ..) c.db h hap recordedAt now

/-- The event rows of a request are those of the calls, and its state is current. -/
structure Logged (db : Store) (requestId : ℤ) (calls : List AppendCall) : Prop where
  rows : List.Forall₂ (fun call row => ∃ recordedAt, row.2 = call.row recordedAt) calls
    (db.eventRows requestId)
  eventType_known : ∀ call ∈ calls, ∀ v, call.eventType ≠ .unknown v
  source_known : ∀ call ∈ calls, ∀ v, call.source ≠ .unknown v
  current : calls ≠ [] → db.Current arch requestId

theorem logged_fresh {db : Store} {requestId : ℤ} (h : db.eventRows requestId = []) :
    Logged arch db requestId [] :=
  ⟨h ▸ List.Forall₂.nil, by simp, by simp, fun h => absurd rfl h⟩

theorem logged_append {db : Store} {requestId : ℤ} {calls : List AppendCall}
    (h : Logged arch db requestId calls) {call : AppendCall}
    (hap : Appendable db call.requestId call.eventType call.source) (recordedAt now : DateTime) :
    Logged arch ((db.withEvent (call.row recordedAt)).projected arch call.requestId now) requestId
      (calls ++ if call.requestId = requestId then [call] else []) := by
  by_cases hid : call.requestId = requestId
  · rw [if_pos hid]
    have hrow : (call.row recordedAt).requestId = requestId := hid
    refine ⟨?_, ?_, ?_, fun _ => hid ▸ current_projected arch _ _ _⟩
    · change List.Forall₂ _ _ ((db.withEvent (call.row recordedAt)).eventRows requestId)
      rw [eventRows_withEvent, if_pos hrow]
      exact List.rel_append h.rows (List.Forall₂.cons ⟨recordedAt, rfl⟩ List.Forall₂.nil)
    · intro call' hcall'
      rcases List.mem_append.1 hcall' with hcall' | hcall'
      · exact h.eventType_known call' hcall'
      · rw [List.mem_singleton.1 hcall']
        exact hap.eventType_known
    · intro call' hcall'
      rcases List.mem_append.1 hcall' with hcall' | hcall'
      · exact h.source_known call' hcall'
      · rw [List.mem_singleton.1 hcall']
        exact hap.source_known
  · rw [if_neg hid, List.append_nil]
    have hrow : (call.row recordedAt).requestId ≠ requestId := hid
    refine ⟨?_, h.eventType_known, h.source_known, fun hne => ?_⟩
    · change List.Forall₂ _ _ ((db.withEvent (call.row recordedAt)).eventRows requestId)
      rw [eventRows_withEvent, if_neg hrow]
      exact h.rows
    · obtain ⟨now', hcur⟩ := h.current hne
      refine ⟨now', ?_⟩
      rw [projected_state_of_ne _ _ _ _ (Ne.symm hid), projected_replayed,
        replayed_withEvent_of_ne hrow]
      exact hcur

/-- A run logs the calls that succeeded. -/
theorem logged_runAppends (requestId : ℤ) (todo : List AppendCall) {c : Conn Store τ}
    {calls : List AppendCall} (h : Logged arch c.db requestId calls) :
    Logged arch (runAppends arch todo c).2.db requestId
      (calls ++ (runAppends arch todo c).1.filter fun call => call.requestId = requestId) := by
  induction todo generalizing c calls with
  | nil => simpa [runAppends] using h
  | cons call todo ih =>
    have hspec := (appendAndProject_spec (A := AnyReply) arch c.db c.trace call.requestId
      call.eventType call.payload call.source call.occurredAt).run c ⟨rfl, rfl⟩
    rw [← AppendCall.run] at hspec
    rw [runAppends]
    generalize call.run arch c = result at hspec
    obtain ⟨r, c'⟩ := result
    cases r with
    | error e =>
      obtain ⟨-, hdb, -⟩ := hspec
      exact ih (hdb ▸ h)
    | ok a =>
      obtain ⟨-, hap, recordedAt, now, hdb⟩ := hspec
      have hlogged := ih (c := c') (hdb ▸ logged_append arch h hap recordedAt now)
      rw [List.append_assoc] at hlogged
      rw [List.filter_cons]
      by_cases hid : call.requestId = requestId
      · simpa [hid] using hlogged
      · simpa [hid] using hlogged

/-! ### The contents of a log -/

/-- The content of a call whose row decodes. -/
def AppendCall.decoded (call : AppendCall) : Option EventRecord :=
  if decodes (.object call.payload) then some call.content else none

theorem decodeEvent_row_bare {call : AppendCall} (ht : ∀ v, call.eventType ≠ .unknown v)
    (hs : ∀ v, call.source ≠ .unknown v) (id : ℤ) (recordedAt : DateTime) :
    (decodeEvent (id, call.row recordedAt)).map EventRecord.bare = call.decoded := by
  rw [AppendCall.row, decodeEvent_eventColumns _ _ _ _ _ ht hs, AppendCall.decoded]
  by_cases h : decodes (.object call.payload) = true
  · rw [if_pos h, if_pos h]
    rfl
  · rw [if_neg h, if_neg h]
    rfl

section Logged

variable {arch} {db : Store} {requestId : ℤ} {calls : List AppendCall}

/-- The contents of the log are those of the calls, in some order. -/
theorem Logged.replayed_perm (h : Logged arch db requestId calls) :
    ((db.replayed requestId).map EventRecord.bare).Perm (calls.filterMap AppendCall.decoded) := by
  have hrows : ((db.eventRows requestId).filterMap decodeEvent).map EventRecord.bare =
      calls.filterMap AppendCall.decoded := by
    obtain ⟨hrows, ht, hs, -⟩ := h
    rw [List.map_filterMap]
    generalize db.eventRows requestId = rows at hrows
    -- call by call, in the order of the rows
    induction hrows with
    | nil => rfl
    | @cons call row calls rows hrow _ ih =>
      obtain ⟨recordedAt, hrow⟩ := hrow
      have hhead := decodeEvent_row_bare (ht call (by simp)) (hs call (by simp)) row.1 recordedAt
      rw [← hrow] at hhead
      rw [List.filterMap_cons, List.filterMap_cons, ← hhead,
        ih (fun c hc => ht c (List.mem_cons_of_mem _ hc))
          (fun c hc => hs c (List.mem_cons_of_mem _ hc))]
  rw [← hrows]
  exact ((List.perm_insertionSort ReplayLe _).filterMap _).map _

theorem Logged.exists_call (h : Logged arch db requestId calls) {row : ℤ × EventColumns}
    (hrow : row ∈ db.eventRows requestId) :
    ∃ call ∈ calls, ∃ recordedAt, row.2 = call.row recordedAt := by
  have hrows := h.rows
  clear h
  generalize db.eventRows requestId = rows at hrow hrows
  induction hrows with
  | nil => cases hrow
  | @cons call row' calls rows hhead _ ih =>
    rcases List.mem_cons.1 hrow with rfl | hrow
    · exact ⟨call, List.mem_cons_self, hhead⟩
    · obtain ⟨call', hcall', hrow'⟩ := ih hrow
      exact ⟨call', List.mem_cons_of_mem _ hcall', hrow'⟩

/-- The log is replayed in the order of its instants. -/
theorem Logged.replayed_sorted (h : Logged arch db requestId calls)
    (hyears : ∀ call ∈ calls, FourDigitYear call.occurredAt) :
    ((db.replayed requestId).map EventRecord.bare).Pairwise
      fun x y => x.occurredAt ≤ y.occurredAt := by
  have hnone : NoneInverted (db.eventRows requestId) := by
    refine noneInverted_of_formatSql fun row hrow => ?_
    obtain ⟨call, hcall, recordedAt, heq⟩ := h.exists_call hrow
    exact ⟨call.occurredAt, hyears call hcall, by rw [heq]; rfl⟩
  have hsorted := (pairwise_instantLe_iff fun a ha => (mem_eventRows.1 ha).1).2 hnone
  refine List.pairwise_map.2 (hsorted.imp fun {x y} hxy => ?_)
  rcases hxy with hxy | ⟨hxy, -⟩
  · exact hxy.le
  · exact hxy.le

/-- A replayable call has an event that the fold does not skip. -/
theorem Logged.exists_replayable (h : Logged arch db requestId calls)
    (hcall : ∃ call ∈ calls, call.Replayable) :
    ∃ event ∈ db.replayed requestId, ¬ event.Skipped := by
  obtain ⟨call, hmem, hdec, hzero⟩ := hcall
  have hcontent : call.content ∈ (db.replayed requestId).map EventRecord.bare := by
    refine h.replayed_perm.mem_iff.2 (List.mem_filterMap.2 ⟨call, hmem, ?_⟩)
    rw [AppendCall.decoded, if_pos hdec]
  obtain ⟨event, hevent, hbare⟩ := List.mem_map.1 hcontent
  refine ⟨event, hevent, fun hskip => ?_⟩
  have hskip' : call.content.Skipped := hbare ▸ hskip
  rcases hskip' with hskip' | hskip'
  · exact h.eventType_known call hmem _ hskip'
  · rw [show isGoZeroTime call.content.occurredAt = false from hzero] at hskip'
    cases hskip'

end Logged

/-- Logs of the same events in two orders, all of different seconds, are replayed alike. -/
theorem replayed_bare_eq {db₁ db₂ : Store} {requestId : ℤ} {calls₁ calls₂ : List AppendCall}
    (h₁ : Logged arch db₁ requestId calls₁) (h₂ : Logged arch db₂ requestId calls₂)
    (hperm : calls₁.Perm calls₂)
    (hdistinct : calls₁.Pairwise fun a b => a.occurredAt.trunc ≠ b.occurredAt.trunc)
    (hyears : ∀ call ∈ calls₁, FourDigitYear call.occurredAt) :
    (db₁.replayed requestId).map EventRecord.bare =
      (db₂.replayed requestId).map EventRecord.bare := by
  have hcontents := (h₁.replayed_perm.trans (hperm.filterMap _)).trans h₂.replayed_perm.symm
  refine List.Perm.eq_of_pairwise (fun x y hx hy (hxy : x.occurredAt ≤ y.occurredAt) hyx => ?_)
    (h₁.replayed_sorted hyears)
    (h₂.replayed_sorted fun call hcall => hyears call (hperm.mem_iff.2 hcall)) hcontents
  -- contents of one instant come from one call
  have hcall : ∀ z ∈ (db₁.replayed requestId).map EventRecord.bare,
      ∃ call ∈ calls₁, call.content = z := by
    intro z hz
    obtain ⟨call, hmem, hdec⟩ := List.mem_filterMap.1 (h₁.replayed_perm.mem_iff.1 hz)
    rw [AppendCall.decoded] at hdec
    by_cases hd : decodes (.object call.payload) = true
    · rw [if_pos hd] at hdec
      exact ⟨call, hmem, Option.some.inj hdec⟩
    · rw [if_neg hd] at hdec
      cases hdec
  obtain ⟨a, ha, rfl⟩ := hcall x hx
  obtain ⟨b, hb, rfl⟩ := hcall y (hcontents.mem_iff.2 hy)
  have heq : a.occurredAt.trunc = b.occurredAt.trunc := le_antisymm hxy hyx
  by_contra hne
  have : Std.Symm fun a b : AppendCall => a.occurredAt.trunc ≠ b.occurredAt.trunc :=
    ⟨fun _ _ h => Ne.symm h⟩
  exact hdistinct.forall ha hb (fun hab => hne (by rw [hab])) heq

/-- The columns that do not depend on the order of the appends nor on the clock. -/
def StateColumns.forget (row : StateColumns) : StateColumns :=
  { row with lastEventId := 0, lastEventAt := "" }

/-- The same events appended in two orders, all of different seconds in the years `0..9999`, give
state rows that agree on every column except the last event id, and except the last event time
when none of the events is replayable. -/
theorem state_eq_of_perm {c₁ c₂ : Conn Store τ} {requestId : ℤ}
    (h₁ : c₁.db.eventRows requestId = []) (h₂ : c₂.db.eventRows requestId = [])
    (todo₁ todo₂ : List AppendCall) {calls₁ calls₂ : List AppendCall}
    (hcalls₁ : calls₁ = (runAppends arch todo₁ c₁).1.filter fun call => call.requestId = requestId)
    (hcalls₂ : calls₂ = (runAppends arch todo₂ c₂).1.filter fun call => call.requestId = requestId)
    (hne : calls₁ ≠ []) (hperm : calls₁.Perm calls₂)
    (hdistinct : calls₁.Pairwise fun a b => a.occurredAt.trunc ≠ b.occurredAt.trunc)
    (hyears : ∀ call ∈ calls₁, FourDigitYear call.occurredAt) :
    ∃ row₁ row₂, (runAppends arch todo₁ c₁).2.db.state requestId = some row₁ ∧
      (runAppends arch todo₂ c₂).2.db.state requestId = some row₂ ∧
      row₁.forget = row₂.forget ∧
      ((∃ call ∈ calls₁, call.Replayable) → row₁.lastEventAt = row₂.lastEventAt) := by
  have hlog₁ := logged_runAppends arch requestId todo₁ (logged_fresh arch h₁)
  have hlog₂ := logged_runAppends arch requestId todo₂ (logged_fresh arch h₂)
  rw [List.nil_append, ← hcalls₁] at hlog₁
  rw [List.nil_append, ← hcalls₂] at hlog₂
  generalize (runAppends arch todo₁ c₁).2.db = db₁ at hlog₁
  generalize (runAppends arch todo₂ c₂).2.db = db₂ at hlog₂
  obtain ⟨now₁, hstate₁⟩ := hlog₁.current hne
  obtain ⟨now₂, hstate₂⟩ := hlog₂.current fun h => hne (List.perm_nil.1 (h ▸ hperm))
  have hfold : (foldEvents arch requestId (db₁.replayed requestId)).forget =
      (foldEvents arch requestId (db₂.replayed requestId)).forget := by
    rw [foldEvents_forget, foldEvents_forget,
      replayed_bare_eq arch hlog₁ hlog₂ hperm hdistinct hyears]
  refine ⟨_, _, hstate₁, hstate₂, ?_, fun hsome => ?_⟩
  · have hcolumns := congrArg (fun state => (stateColumns state epoch).forget) hfold
    exact hcolumns
  · have hat := congrArg ProjectionState.lastEventAt hfold
    change (foldEvents arch requestId (db₁.replayed requestId)).lastEventAt =
      (foldEvents arch requestId (db₂.replayed requestId)).lastEventAt at hat
    obtain ⟨event, hevent, hskip⟩ := hlog₁.exists_replayable hsome
    obtain ⟨text, htext⟩ := Option.isSome_iff_exists.1
      ((foldEvents_lastEventAt_isSome arch requestId _).2 ⟨event, hevent, hskip⟩)
    simp only [stateColumns, ← hat, htext, Option.getD_some]

/-- A store with one request and no events, under a clock. -/
def clocked (now : DateTime) : Conn Store Unit where
  db := { Store.fresh with
    requests := Table.empty.insert ⟨"acme", "email", "spring", "2026-01-01 00:00:00", "GDPR", "", ""⟩ }
  trace := []
  replies := fun _ => { Reply.plain with now := now }

/-- SENT on 2026-01-02 and ACK on 2026-01-05. -/
def sentThenAcked : List AppendCall :=
  [⟨1, .sent, [("expected_response_days", .int 30)], .system, .ofSecs 1767312000 jan2_inRange⟩,
    ⟨1, .ack, [], .inbox, .ofSecs 1767571200 (by decide)⟩]

theorem state_eq_sentThenAcked :
    ∃ row₁ row₂,
      (runAppends .x86_64 sentThenAcked (clocked epoch)).2.db.state 1 = some row₁ ∧
      (runAppends .x86_64 sentThenAcked.reverse
        (clocked (.ofSecs 1767571200 (by decide)))).2.db.state 1 = some row₂ ∧
      row₁.forget = row₂.forget ∧ row₁.lastEventAt = row₂.lastEventAt := by
  have hdone₁ := (runAppends_sublist .x86_64 sentThenAcked (clocked epoch)).eq_of_length
    (by decide)
  have hdone₂ := (runAppends_sublist .x86_64 sentThenAcked.reverse
    (clocked (.ofSecs 1767571200 (by decide)))).eq_of_length (by decide)
  obtain ⟨row₁, row₂, hrow₁, hrow₂, hforget, hat⟩ := @state_eq_of_perm Unit .x86_64
    (clocked epoch) (clocked (.ofSecs 1767571200 (by decide))) 1 rfl rfl sentThenAcked
    sentThenAcked.reverse sentThenAcked sentThenAcked.reverse (by rw [hdone₁]; rfl)
    (by rw [hdone₂]; rfl) (by intro h; cases h) (List.reverse_perm sentThenAcked).symm (by decide)
    (by decide)
  exact ⟨row₁, row₂, hrow₁, hrow₂, hforget, hat ⟨_, List.mem_cons_self, by decide⟩⟩

/-- An object nested too deep to decode. -/
def tooDeep : ℕ → Json
  | 0 => .null
  | n + 1 => .object [("a", tooDeep n)]

/-- A note at the zero instant, and a note whose payload does not decode. -/
def unreplayable : List AppendCall :=
  [⟨1, .noteAdded, [], .user, .ofSecs (-62135596800) (by decide)⟩,
    ⟨1, .noteAdded, [("a", tooDeep 127)], .user, .ofSecs 1767312000 jan2_inRange⟩]

/-- Appended in two orders in two stores, the two notes leave different last event times. -/
theorem state_ne_unreplayable :
    let events := unreplayable
    let run₁ := runAppends .x86_64 events (clocked epoch)
    let run₂ := runAppends .x86_64 events.reverse (clocked (.ofSecs 1767571200 (by decide)))
    run₁.1 = events ∧ run₂.1 = events.reverse ∧
    (events.Pairwise fun a b => a.occurredAt.trunc ≠ b.occurredAt.trunc) ∧
    (∀ call ∈ events, 1 ≤ call.occurredAt.year ∧ call.occurredAt.year ≤ 9999) ∧
    (run₁.2.db.state 1).map StateColumns.lastEventAt = some "1970-01-01 00:00:00" ∧
    (run₂.2.db.state 1).map StateColumns.lastEventAt = some "2026-01-05 00:00:00" := by
  intro events run₁ run₂
  have hdone₁ : run₁.1 = events :=
    (runAppends_sublist .x86_64 events (clocked epoch)).eq_of_length (by decide +kernel)
  have hdone₂ : run₂.1 = events.reverse :=
    (runAppends_sublist .x86_64 events.reverse
      (clocked (.ofSecs 1767571200 (by decide)))).eq_of_length (by decide +kernel)
  exact ⟨hdone₁, hdone₂, by decide +kernel, by decide +kernel, by decide +kernel,
    by decide +kernel⟩

end EraseMe.Storage
