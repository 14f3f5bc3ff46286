import EraseMe.Storage.Append

/-!
# Rebuilding stale states

A state row looks out of date when an event of its request has an id above the row's last event
id.  That id is the one of the last event in replay order, not the largest id, so that a row may
be rebuilt although it is current; but a row that is not current always looks out of date
(`NeverLooksClean`), in every run of the writers.  Hence `rebuildAllStates` leaves every request
with events current.
-/

namespace EraseMe.Storage

open Chrono Json Sqlite

variable {τ : Type} {A : Reply → Prop} (arch : TargetArch)

/-- The state row of a request is the fold of its decoded events in replay order, up to the last
event time of a log without replayable events. -/
def Store.Current (db : Store) (requestId : ℤ) : Prop :=
  ∃ now, db.state requestId =
    some (stateColumns (foldEvents arch requestId (db.replayed requestId)) now)

/-! ### The last event of a fold -/

theorem replayEvent_lastEvent (state : ProjectionState) (event : EventRecord) :
    (replayEvent arch state event).lastEventId =
        (if event.Skipped then state.lastEventId else event.id) ∧
      (replayEvent arch state event).lastEventAt =
        if event.Skipped then state.lastEventAt
        else some (Timeutil.formatIso event.occurredAt) := by
  by_cases h : event.Skipped
  · rw [replayEvent_of_skipped arch h, if_pos h, if_pos h]
    exact ⟨rfl, rfl⟩
  · rw [replayEvent_of_not_skipped arch h, effect_lastEventId, effect_lastEventAt, if_neg h,
      if_neg h]
    exact ⟨rfl, rfl⟩

/-- The last event id is zero or the id of an event of the log. -/
theorem foldEvents_lastEventId (requestId : ℤ) (events : List EventRecord) :
    (foldEvents arch requestId events).lastEventId = 0 ∨
      ∃ event ∈ events, event.id = (foldEvents arch requestId events).lastEventId := by
  induction events using List.reverseRecOn with
  | nil => exact Or.inl rfl
  | append_singleton events event ih =>
    rw [foldEvents_append, (replayEvent_lastEvent arch _ event).1]
    by_cases h : event.Skipped
    · rw [if_pos h]
      rcases ih with ih | ⟨e, he, hid⟩
      · exact Or.inl ih
      · exact Or.inr ⟨e, List.mem_append_left _ he, hid⟩
    · rw [if_neg h]
      exact Or.inr ⟨event, by simp, rfl⟩

/-- The fold has a last event time exactly when some event is replayable. -/
theorem foldEvents_lastEventAt_isSome (requestId : ℤ) (events : List EventRecord) :
    (foldEvents arch requestId events).lastEventAt.isSome ↔ ∃ event ∈ events, ¬ event.Skipped := by
  induction events using List.reverseRecOn with
  | nil => simp [foldEvents, ProjectionState.new]
  | append_singleton events event ih =>
    rw [foldEvents_append, (replayEvent_lastEvent arch _ event).2]
    by_cases h : event.Skipped
    · rw [if_pos h, ih]
      constructor
      · rintro ⟨e, he, hs⟩
        exact ⟨e, List.mem_append_left _ he, hs⟩
      · rintro ⟨e, he, hs⟩
        rcases List.mem_append.1 he with he | he
        · exact ⟨e, he, hs⟩
        · rw [List.mem_singleton.1 he] at hs
          exact absurd h hs
    · rw [if_neg h]
      exact ⟨fun _ => ⟨event, by simp, h⟩, fun _ => rfl⟩

theorem stateColumns_congr {state : ProjectionState} (h : state.lastEventAt.isSome)
    (now now' : DateTime) : stateColumns state now = stateColumns state now' := by
  obtain ⟨t, ht⟩ := Option.isSome_iff_exists.1 h
  simp [stateColumns, ht]

theorem decodeEvent_id {row : ℤ × EventColumns} {event : EventRecord}
    (h : decodeEvent row = some event) : event.id = row.1 := by
  unfold decodeEvent at h
  simp only [Option.bind_eq_bind, Option.bind_eq_some_iff] at h
  obtain ⟨_, -, _, -, _, -, h⟩ := h
  cases h
  rfl

theorem mem_replayRows {db : Store} {requestId : ℤ} {row : ℤ × EventColumns} :
    row ∈ db.replayRows requestId ↔ row ∈ db.eventRows requestId :=
  List.mem_insertionSort _

theorem mem_eventRows {db : Store} {requestId : ℤ} {row : ℤ × EventColumns} :
    row ∈ db.eventRows requestId ↔ row ∈ db.events.rows ∧ row.2.requestId = requestId := by
  rw [Store.eventRows, List.mem_filter, decide_eq_true_eq]

/-- The last event id of a fold never passes the last id given out. -/
theorem lastEventId_le_seq (db : Store) (requestId : ℤ) :
    (foldEvents arch requestId (db.replayed requestId)).lastEventId ≤ db.events.seq := by
  rcases foldEvents_lastEventId arch requestId (db.replayed requestId) with h | ⟨event, he, hid⟩
  · rw [h]
    exact db.events.seq_nonneg
  · obtain ⟨row, hrow, hdec⟩ := List.mem_filterMap.1 he
    rw [← hid, decodeEvent_id hdec]
    exact db.events.le_seq row (mem_eventRows.1 (mem_replayRows.1 hrow)).1

/-! ### The invariant -/

/-- Every state row is current or looks out of date. -/
def NeverLooksClean (db : Store) : Prop :=
  ∀ id row, db.state id = some row →
    row.lastEventId ≤ db.events.seq ∧ (db.Current arch id ∨ db.dirty id = true)

theorem eventRows_withEvent (db : Store) (row : EventColumns) (id : ℤ) :
    (db.withEvent row).eventRows id =
      if row.requestId = id then db.eventRows id ++ [(db.events.seq + 1, row)]
      else db.eventRows id := by
  rw [Store.eventRows, withEvent_events, Table.insert_rows, List.filter_append]
  by_cases h : row.requestId = id
  · simp [h, Store.eventRows]
  · simp [h, Store.eventRows]

theorem replayed_withEvent_of_ne {db : Store} {row : EventColumns} {id : ℤ}
    (h : row.requestId ≠ id) : (db.withEvent row).replayed id = db.replayed id := by
  rw [Store.replayed, Store.replayRows, eventRows_withEvent, if_neg h]
  rfl

theorem neverLooksClean_withEvent {db : Store} (h : NeverLooksClean arch db) (row : EventColumns) :
    NeverLooksClean arch (db.withEvent row) := by
  intro id state hstate
  obtain ⟨hle, hcases⟩ := h id state hstate
  rw [withEvent_events, Table.insert_seq]
  refine ⟨by omega, ?_⟩
  by_cases hid : row.requestId = id
  · right
    rw [Store.dirty, eventRows_withEvent, if_pos hid, List.any_append, hstate]
    have : db.events.seq + 1 > state.lastEventId := by omega
    simp [this]
  · rcases hcases with ⟨now, hcur⟩ | hdirty
    · exact Or.inl ⟨now, by rw [replayed_withEvent_of_ne hid]; exact hcur⟩
    · right
      rw [Store.dirty, eventRows_withEvent, if_neg hid]
      exact hdirty

theorem current_projected (db : Store) (requestId : ℤ) (now : DateTime) :
    (db.projected arch requestId now).Current arch requestId :=
  ⟨now, projected_state_self _ _ _ _⟩

theorem neverLooksClean_projected {db : Store} (h : NeverLooksClean arch db) (requestId : ℤ)
    (now : DateTime) : NeverLooksClean arch (db.projected arch requestId now) := by
  intro id state hstate
  by_cases hid : id = requestId
  · subst hid
    rw [projected_state_self] at hstate
    cases hstate
    exact ⟨lastEventId_le_seq arch db id, Or.inl (current_projected arch db id now)⟩
  · rw [projected_state_of_ne _ _ _ _ hid] at hstate
    obtain ⟨hle, hcases⟩ := h id state hstate
    refine ⟨hle, ?_⟩
    rcases hcases with ⟨now', hcur⟩ | hdirty
    · exact Or.inl ⟨now', by rw [projected_state_of_ne _ _ _ _ hid]; exact hcur⟩
    · right
      rw [Store.dirty, projected_state_of_ne _ _ _ _ hid]
      exact hdirty

/-! ### Runs of the writers -/

/-- One call of a writer. -/
inductive Operation
  | appendEvent (requestId : ℤ) (eventType : EventType) (payload : Map) (source : Source)
      (occurredAt : DateTime)
  | appendAndProject (requestId : ℤ) (eventType : EventType) (payload : Map) (source : Source)
      (occurredAt : DateTime)
  | upsertState (requestId : ℤ)
  | createRemovalRequest (brokerId channel campaignId jurisdiction templateId
      identitySnapshotHash : String)

/-- The connection after a call; its result is dropped. -/
def Operation.run : Operation → Conn Store τ → Conn Store τ
  | .appendEvent id t p s at_, c => (Storage.appendEvent id t p s at_ c).2
  | .appendAndProject id t p s at_, c => (Storage.appendAndProject arch id t p s at_ c).2
  | .upsertState id, c => (Storage.upsertState arch id c).2
  | .createRemovalRequest b ch ca j t h, c => (Storage.createRemovalRequest b ch ca j t h c).2

/-- The connection after a list of calls. -/
def runOperations (ops : List Operation) (c : Conn Store τ) : Conn Store τ :=
  ops.foldl (fun c op => op.run arch c) c

/-- A property of the store that every write of the writers keeps. -/
structure Kept (I : Store → Prop) : Prop where
  withEvent : ∀ db row, I db → I (db.withEvent row)
  projected : ∀ db id now, I db → I (db.projected arch id now)
  withRequest : ∀ db columns, I db → I (db.withRequest columns)

theorem Kept.run {I : Store → Prop} (hI : Kept arch I) (op : Operation) {c : Conn Store τ}
    (h : I c.db) : I (op.run arch c).db := by
  cases op with
  | appendEvent id t p s at_ =>
    have hspec := (appendEvent_spec (A := AnyReply) c.db c.trace id t p s at_).run c ⟨rfl, rfl⟩
    rw [Operation.run]
    generalize Storage.appendEvent id t p s at_ c = result at hspec
    obtain ⟨r, c'⟩ := result
    cases r with
    | ok a =>
      obtain ⟨-, -, recordedAt, hdb⟩ := hspec
      rw [hdb]
      exact hI.withEvent _ _ h
    | error e => exact hspec.2 ▸ h
  | appendAndProject id t p s at_ =>
    have hspec := (appendAndProject_spec (A := AnyReply) arch c.db c.trace id t p s at_).run c
      ⟨rfl, rfl⟩
    rw [Operation.run]
    generalize Storage.appendAndProject arch id t p s at_ c = result at hspec
    obtain ⟨r, c'⟩ := result
    cases r with
    | ok a =>
      obtain ⟨-, -, recordedAt, now, hdb⟩ := hspec
      rw [hdb]
      exact hI.projected _ _ _ (hI.withEvent _ _ h)
    | error e => exact hspec.2.1 ▸ h
  | upsertState id =>
    have hspec := (upsertState_spec (A := AnyReply) arch c.db c.trace id).run c ⟨rfl, rfl⟩
    rw [Operation.run]
    generalize Storage.upsertState arch id c = result at hspec
    obtain ⟨r, c'⟩ := result
    cases r with
    | ok a =>
      obtain ⟨-, now, hdb⟩ := hspec
      rw [hdb]
      exact hI.projected _ _ _ h
    | error e => exact hspec.2.1 ▸ h
  | createRemovalRequest b ch ca j t hash =>
    have hspec := (createRemovalRequest_spec (A := AnyReply) c.db c.trace b ch ca j t hash).run c
      ⟨rfl, rfl⟩
    rw [Operation.run]
    generalize Storage.createRemovalRequest b ch ca j t hash c = result at hspec
    obtain ⟨r, c'⟩ := result
    cases r with
    | ok a =>
      obtain ⟨-, -, createdAt, hdb⟩ := hspec
      rw [hdb]
      exact hI.withRequest _ _ h
    | error e => exact hspec.2.1 ▸ h

/-- What every write keeps holds after every run. -/
theorem Kept.runOperations {I : Store → Prop} (hI : Kept arch I) (ops : List Operation)
    {c : Conn Store τ} (h : I c.db) : I (runOperations arch ops c).db := by
  induction ops generalizing c with
  | nil => exact h
  | cons op ops ih => exact ih (hI.run arch op h)

theorem kept_neverLooksClean : Kept arch (NeverLooksClean arch) where
  withEvent _ row h := neverLooksClean_withEvent arch h row
  projected _ id now h := neverLooksClean_projected arch h id now
  withRequest _ _ h := h

theorem neverLooksClean_runOperations (ops : List Operation) {c : Conn Store τ}
    (h : NeverLooksClean arch c.db) : NeverLooksClean arch (runOperations arch ops c).db :=
  (kept_neverLooksClean arch).runOperations arch ops h

/-! ### Runs that always project -/

/-- Every request with a state row or a decodable event has a current state row. -/
def AllCurrent (db : Store) : Prop :=
  ∀ id, (db.state id).isSome ∨ db.replayed id ≠ [] → db.Current arch id

theorem allCurrent_projected {db : Store} {id : ℤ} (h : ∀ id', id' ≠ id →
      ((db.state id').isSome ∨ db.replayed id' ≠ [] → db.Current arch id')) (now : DateTime) :
    AllCurrent arch (db.projected arch id now) := by
  intro id' hid'
  by_cases heq : id' = id
  · exact heq ▸ current_projected arch db id' now
  · rw [projected_state_of_ne _ _ _ _ heq] at hid'
    obtain ⟨now', hcur⟩ := h id' heq hid'
    exact ⟨now', by rw [projected_state_of_ne _ _ _ _ heq]; exact hcur⟩

theorem allCurrent_append {db : Store} (h : AllCurrent arch db) (row : EventColumns)
    (now : DateTime) : AllCurrent arch ((db.withEvent row).projected arch row.requestId now) := by
  refine allCurrent_projected arch (fun id hne hid => ?_) now
  rw [withEvent_state, replayed_withEvent_of_ne (Ne.symm hne)] at hid
  obtain ⟨now', hcur⟩ := h id hid
  exact ⟨now', by rw [replayed_withEvent_of_ne (Ne.symm hne)]; exact hcur⟩

/-- A call other than `appendEvent`, which does not project. -/
def Operation.Projects : Operation → Prop
  | .appendEvent .. => False
  | _ => True

theorem allCurrent_run (op : Operation) (hop : op.Projects) {c : Conn Store τ}
    (h : AllCurrent arch c.db) : AllCurrent arch (op.run arch c).db := by
  cases op with
  | appendEvent id t p s at_ => cases hop
  | appendAndProject id t p s at_ =>
    have hspec := (appendAndProject_spec (A := AnyReply) arch c.db c.trace id t p s at_).run c
      ⟨rfl, rfl⟩
    rw [Operation.run]
    generalize Storage.appendAndProject arch id t p s at_ c = result at hspec
    obtain ⟨r, c'⟩ := result
    cases r with
    | ok a =>
      obtain ⟨-, -, recordedAt, now, hdb⟩ := hspec
      rw [hdb]
      exact allCurrent_append arch h _ now
    | error e => exact hspec.2.1 ▸ h
  | upsertState id =>
    have hspec := (upsertState_spec (A := AnyReply) arch c.db c.trace id).run c ⟨rfl, rfl⟩
    rw [Operation.run]
    generalize Storage.upsertState arch id c = result at hspec
    obtain ⟨r, c'⟩ := result
    cases r with
    | ok a =>
      obtain ⟨-, now, hdb⟩ := hspec
      rw [hdb]
      exact allCurrent_projected arch (fun id' _ hid' => h id' hid') now
    | error e => exact hspec.2.1 ▸ h
  | createRemovalRequest b ch ca j t hash =>
    have hspec := (createRemovalRequest_spec (A := AnyReply) c.db c.trace b ch ca j t hash).run c
      ⟨rfl, rfl⟩
    rw [Operation.run]
    generalize Storage.createRemovalRequest b ch ca j t hash c = result at hspec
    obtain ⟨r, c'⟩ := result
    cases r with
    | ok a =>
      obtain ⟨-, -, createdAt, hdb⟩ := hspec
      rw [hdb]
      exact h
    | error e => exact hspec.2.1 ▸ h

theorem allCurrent_runOperations (ops : List Operation) (hops : ∀ op ∈ ops, op.Projects)
    {c : Conn Store τ} (h : AllCurrent arch c.db) :
    AllCurrent arch (runOperations arch ops c).db := by
  induction ops generalizing c with
  | nil => exact h
  | cons op ops ih =>
    exact ih (fun op' hop' => hops op' (List.mem_cons_of_mem _ hop'))
      (allCurrent_run arch op (hops op List.mem_cons_self) h)

/-! ### The rebuild -/

theorem flatten_chunks {α : Type} {size : ℕ} (hsize : 0 < size) :
    ∀ (fuel : ℕ) (l : List α), l.length ≤ fuel → (chunks size fuel l).flatten = l
  | 0, l, h => by
      rw [List.length_eq_zero_iff.1 (Nat.le_zero.1 h)]
      rfl
  | fuel + 1, [], _ => rfl
  | fuel + 1, a :: l, h => by
      rw [chunks, List.flatten_cons, flatten_chunks hsize fuel]
      · exact List.take_append_drop size (a :: l)
      · rw [List.length_drop]
        simp only [List.length_cons] at h ⊢
        omega
      · simp

/-- The rebuild in progress: the log is unchanged, the requests done are current, the others have
their old rows. -/
structure Rebuilt (db₁ : Store) (done : List ℤ) (db : Store) : Prop where
  events_eq : db.events = db₁.events
  requests_eq : db.requests = db₁.requests
  current : ∀ id ∈ done, db.Current arch id
  state_eq : ∀ id, id ∉ done → db.state id = db₁.state id

theorem rebuilt_projected {db₁ db : Store} {done : List ℤ} (h : Rebuilt arch db₁ done db) (id : ℤ)
    (now : DateTime) : Rebuilt arch db₁ (done ++ [id]) (db.projected arch id now) := by
  refine ⟨h.events_eq, h.requests_eq, fun id' hid' => ?_, fun id' hid' => ?_⟩
  · by_cases heq : id' = id
    · exact heq ▸ current_projected arch db id' now
    · have hdone : id' ∈ done := by
        simpa [heq] using hid'
      obtain ⟨now', hcur⟩ := h.current id' hdone
      exact ⟨now', by rw [projected_state_of_ne _ _ _ _ heq]; exact hcur⟩
  · simp only [List.mem_append, List.mem_singleton, not_or] at hid'
    rw [projected_state_of_ne _ _ _ _ hid'.2]
    exact h.state_eq id' hid'.1

theorem upsertState_rebuilt (db₁ : Store) (done : List ℤ) (id : ℤ) :
    Triple A (fun db (_ : List τ) => Rebuilt arch db₁ done db) (upsertState arch id)
      fun r db _ => match r with
        | .ok _ => Rebuilt arch db₁ (done ++ [id]) db
        | .error _ => True := by
  refine Triple.ghost fun db₀ tr₀ h => ?_
  refine (upsertState_spec arch db₀ tr₀ id).conseq (fun _ _ h => h) fun r db tr hres => ?_
  cases r with
  | ok a =>
    obtain ⟨-, now, rfl⟩ := hres
    exact rebuilt_projected arch h id now
  | error e => trivial

/-- A successful rebuild leaves every request it found out of date current, and the others as
they were. -/
theorem rebuildAllStates_rebuilt (db₁ : Store) (tr₁ : List τ) (chunkSize : ℕ) :
    Triple A (fun db tr => db = db₁ ∧ tr = tr₁) (rebuildAllStates arch chunkSize)
      fun r db _ => match r with
        | .ok _ => ∃ done, (∀ id, id ∈ done ↔
            id ∈ db₁.requests.rows.map Prod.fst ∧ db₁.dirty id = true) ∧ Rebuilt arch db₁ done db
        | .error _ => True := by
  unfold rebuildAllStates
  have hsize : 0 < if chunkSize = 0 then 100 else chunkSize := by split_ifs <;> omega
  generalize (if chunkSize = 0 then 100 else chunkSize) = size at hsize
  refine Triple.bind
    (R := fun r db _ => match r with
      | .ok dirty => db = db₁ ∧ ∀ id, id ∈ dirty ↔
          id ∈ db₁.requests.rows.map Prod.fst ∧ db₁.dirty id = true
      | .error _ => True)
    (Triple.mapError (Triple.query ?_ fun _ _ _ _ _ _ _ => trivial)) (fun dirty => ?_)
    (fun _ _ _ _ => trivial)
  · rintro r db tr - ⟨rfl, rfl⟩
    refine ⟨rfl, fun id => ?_⟩
    rw [List.mem_insertionSort, List.mem_filter]
  · refine Triple.bind
      (R := fun r db _ => match r with
        | .ok _ => (∀ id, id ∈ dirty ↔ id ∈ db₁.requests.rows.map Prod.fst ∧ db₁.dirty id = true) ∧
            Rebuilt arch db₁ (chunks size dirty.length dirty).flatten db
        | .error _ => True) ?_ (fun _ => Triple.pure fun db tr h => ?_) (fun _ _ _ _ => trivial)
    · refine Triple.ghost fun db₀ tr₀ h => ?_
      obtain ⟨rfl, hdirty⟩ := h
      refine ((Triple.forEach (fun done _ db _ => Rebuilt arch db₀ done.flatten db)
        (fun _ _ _ => True) (fun pre chunk post _ _ => ?_)).conseq (fun db tr h => ?_)
        fun r db tr h => ?_)
      · refine (Triple.forEach (fun done _ db _ => Rebuilt arch db₀ (pre.flatten ++ done) db)
          (fun _ _ _ => True) (fun done id _ _ _ => ?_)).conseq (fun db tr h => by simpa using h)
          fun r db tr h => ?_
        · refine (upsertState_rebuilt arch db₀ (pre.flatten ++ done) id).conseq
            (fun _ _ h => h) fun r db tr h => ?_
          cases r with
          | ok a => simpa using h
          | error e => trivial
        · cases r with
          | ok a => simpa using h
          | error e => trivial
      · rw [h.1]
        exact ⟨rfl, rfl, by simp, fun _ _ => rfl⟩
      · cases r with
        | ok a => exact ⟨hdirty, h⟩
        | error e => trivial
    · rw [flatten_chunks hsize _ _ le_rfl] at h
      exact ⟨dirty, h⟩

/-- Whether it succeeds or not, a rebuild keeps what every projection keeps. -/
theorem rebuildAllStates_preserves {I : Store → Prop}
    (hI : ∀ db id now, I db → I (db.projected arch id now)) (chunkSize : ℕ) :
    Triple A (fun db (_ : List τ) => I db) (rebuildAllStates arch chunkSize) fun _ db _ => I db := by
  have hupsert : ∀ id, Triple A (fun db (_ : List τ) => I db) (upsertState arch id)
      fun _ db _ => I db := by
    refine fun id => Triple.ghost fun db₀ tr₀ h => ?_
    refine (upsertState_spec arch db₀ tr₀ id).conseq (fun _ _ h => h) fun r db tr hres => ?_
    cases r with
    | ok a =>
      obtain ⟨-, now, rfl⟩ := hres
      exact hI db₀ id now h
    | error e => exact hres.2.1 ▸ h
  have hloop : ∀ {α β : Type} {f : α → Db Store τ ProjectionError β} (l : List α),
      (∀ a, Triple A (fun db (_ : List τ) => I db) (f a) fun _ db _ => I db) →
      Triple A (fun db (_ : List τ) => I db) (forEach f l) fun _ db _ => I db := by
    intro α β f l hf
    refine (Triple.forEach (fun _ _ db _ => I db) (fun _ db _ => I db)
      fun _ a _ _ _ => (hf a).conseq (fun _ _ h => h) fun r db tr h => ?_).conseq
      (fun _ _ h => h) fun r db tr h => ?_
    · cases r with
      | ok b => exact h
      | error e => exact h
    · cases r with
      | ok bs => exact h
      | error e => exact h
  unfold rebuildAllStates
  refine Triple.bind (R := fun _ db _ => I db)
    (Triple.mapError (Triple.query (fun _ _ _ _ h => h) fun _ _ _ _ _ h _ => h))
    (fun dirty => ?_) (fun _ _ _ h => h)
  exact Triple.bind (R := fun _ db _ => I db) (hloop _ fun chunk => hloop chunk hupsert)
    (fun _ => Triple.pure fun _ _ h => h) (fun _ _ _ h => h)

/-- Where no row that is not current looks clean, a rebuild leaves every request with an event
current. -/
theorem Rebuilt.current_of_event {db₁ db : Store} {done : List ℤ} (hreb : Rebuilt arch db₁ done db)
    (hclean : NeverLooksClean arch db₁) (hdone : ∀ id, id ∈ done ↔
      id ∈ db₁.requests.rows.map Prod.fst ∧ db₁.dirty id = true) {id : ℤ}
    (hrequest : id ∈ db.requests.rows.map Prod.fst) (hevent : db.eventRows id ≠ []) :
    db.Current arch id := by
  by_cases hd : db₁.dirty id = true
  · exact hreb.current id ((hdone id).2 ⟨hreb.requests_eq ▸ hrequest, hd⟩)
  · have hstate := hreb.state_eq id fun h => hd ((hdone id).1 h).2
    have hrows : db.eventRows id = db₁.eventRows id := by
      rw [Store.eventRows, hreb.events_eq]
      rfl
    -- a request with an event and no row would be out of date
    cases hrow : db₁.state id with
    | none =>
      refine absurd ?_ hd
      obtain ⟨row, hrow'⟩ := List.exists_mem_of_ne_nil _ (hrows ▸ hevent)
      exact List.any_eq_true.2 ⟨row, hrow', by rw [hrow]⟩
    | some row =>
      obtain ⟨now, hcur⟩ := (hclean id row hrow).2.resolve_right hd
      refine ⟨now, ?_⟩
      rw [hstate, hcur, Store.replayed, Store.replayed, Store.replayRows, Store.replayRows, hrows]

/-- No state row, and hence none that looks clean. -/
theorem neverLooksClean_of_none {db : Store} (h : ∀ id, db.state id = none) :
    NeverLooksClean arch db := by
  intro id row hrow
  rw [h] at hrow
  cases hrow

/-- After any run of the writers from a store without state rows, with any statements failing, a
rebuild that succeeds leaves every request with an event row with the state row its log folds to;
only the last event time of a log without replayable events is not determined by the log. -/
theorem rebuildAllStates_current {c₀ c : Conn Store τ} (h₀ : ∀ id, c₀.db.state id = none)
    (ops : List Operation) (chunkSize n : ℕ)
    (hok : rebuildAllStates arch chunkSize (runOperations arch ops c₀) = (.ok n, c)) (id : ℤ)
    (hrequest : id ∈ c.db.requests.rows.map Prod.fst) (hevent : c.db.eventRows id ≠ []) :
    ∃ row, c.db.state id = some row ∧
      (∃ now, row = stateColumns (foldEvents arch id (c.db.replayed id)) now) ∧
      ((∃ event ∈ c.db.replayed id, ¬ event.Skipped) →
        ∀ now, row = stateColumns (foldEvents arch id (c.db.replayed id)) now) := by
  have hclean : NeverLooksClean arch (runOperations arch ops c₀).db :=
    neverLooksClean_runOperations arch ops (neverLooksClean_of_none arch h₀)
  have hrun := (rebuildAllStates_rebuilt (A := AnyReply) arch _ _ chunkSize).run
    (runOperations arch ops c₀) ⟨rfl, rfl⟩
  rw [hok] at hrun
  obtain ⟨done, hdone, hreb⟩ := hrun
  have hcurrent : c.db.Current arch id :=
    hreb.current_of_event arch hclean hdone hrequest hevent
  obtain ⟨now, hcur⟩ := hcurrent
  refine ⟨_, hcur, ⟨now, rfl⟩, fun hsome now' => stateColumns_congr ?_ now now'⟩
  exact (foldEvents_lastEventAt_isSome arch id _).2 hsome

/-- A new database under an engine that never fails. -/
def Store.connect (db : Store) : Conn Store τ := ⟨db, [], fun _ => .plain⟩

/-! The midnights of 2026-01-01, 2026-01-02 and 2026-02-01 are in the calendar. -/

theorem jan1_inRange : minSecs ≤ 1767225600 ∧ 1767225600 ≤ maxSecs := by decide

theorem jan2_inRange : minSecs ≤ 1767312000 ∧ 1767312000 ≤ maxSecs := by decide

theorem feb1_inRange : minSecs ≤ 1769904000 ∧ 1769904000 ≤ maxSecs := by decide

/-- A request, its SENT event of 2026-01-02, and a note of the day before appended later. -/
def backdatedNote : List Operation :=
  [.createRemovalRequest "acme" "email" "spring" "GDPR" "gdpr-art17.md.j2" "",
    .appendAndProject 1 .sent [("expected_response_days", .int 30)] .system
      (.ofSecs 1767312000 jan2_inRange),
    .appendEvent 1 .noteAdded [] .user (.ofSecs 1767225600 jan1_inRange)]

theorem rebuildAllStates_backdatedNote :
    ∃ row, (rebuildAllStates .x86_64 1
        (runOperations .x86_64 backdatedNote (Store.fresh.connect : Conn Store Unit))).2.db.state 1 =
      some row ∧ row.currentStatus = "AWAITING_ACK" ∧ row.lastEventId = 1 := by
  have hfresh : ∀ id, (Store.fresh.connect : Conn Store Unit).db.state id = none := fun _ => rfl
  obtain ⟨row, hrow, ⟨now, hnow⟩, -⟩ := rebuildAllStates_current .x86_64 hfresh backdatedNote 1 1
    (Prod.ext (by rfl) rfl) 1 (by decide) (by intro h; cases h)
  exact ⟨row, hrow, by rw [hnow]; rfl, by rw [hnow]; rfl⟩

end EraseMe.Storage
