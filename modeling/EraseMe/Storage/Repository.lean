import EraseMe.Storage.Types

/-!
# `storage::repository`: queries

`getEvents` reads the events of a request in replay order, `(occurred_at, id)` on the stored
texts, and skips the rows that do not decode.  A query with an `ORDER BY` leaves the order of
equal rows to the engine.
-/

namespace EraseMe.Storage

open Chrono Json Sqlite

variable {τ : Type}

/-! ### Events -/

/-- The payload of a decoded row. -/
def decodePayload : PayloadText → Option Map
  | .blank => some []
  | .document .null => some []
  | .document (.object payload) => if decodes (.object payload) then some payload else none
  | .document _ => none
  | .malformed => none

/-- Decode a row of `request_events`, if it can be materialised. -/
def decodeEvent (row : ℤ × EventColumns) : Option EventRecord := do
  let occurredAt ← (Timeutil.parseTimestamp row.2.occurredAt).toOption
  let recordedAt ← (Timeutil.parseTimestamp row.2.recordedAt).toOption
  let payload ← decodePayload row.2.payloadJson
  some
    { id := row.1
      requestId := row.2.requestId
      occurredAt := occurredAt
      recordedAt := recordedAt
      eventType := .fromWire row.2.eventType
      payload := payload
      source := .fromWire row.2.source }

/-- `ORDER BY occurred_at ASC, id ASC`. -/
def ReplayLe (a b : ℤ × EventColumns) : Prop :=
  a.2.occurredAt < b.2.occurredAt ∨ a.2.occurredAt = b.2.occurredAt ∧ a.1 ≤ b.1

instance : DecidableRel ReplayLe := fun a b =>
  inferInstanceAs (Decidable (a.2.occurredAt < b.2.occurredAt ∨
    a.2.occurredAt = b.2.occurredAt ∧ a.1 ≤ b.1))

/-- The event rows of a request. -/
def Store.eventRows (db : Store) (requestId : ℤ) : List (ℤ × EventColumns) :=
  db.events.rows.filter fun row => row.2.requestId = requestId

/-- The event rows of a request in replay order. -/
def Store.replayRows (db : Store) (requestId : ℤ) : List (ℤ × EventColumns) :=
  (db.eventRows requestId).insertionSort ReplayLe

/-- The events of a request after an event id, in replay order. -/
def getEvents (requestId afterEventId : ℤ) : Db Store τ String (List EventRecord) :=
  query fun _ db =>
    let rows := (db.eventRows requestId).filter fun row => afterEventId > 0 → row.1 > afterEventId
    (rows.insertionSort ReplayLe).filterMap decodeEvent

/-! ### Campaigns and requests -/

/-- Insert a campaign, returning false when the id already exists. -/
def createCampaign (id kind notes : String) : Db Store τ String Bool :=
  let kind := if kind = "" then "initial" else kind
  statement fun reply db =>
    if db.campaigns.any fun c => c.id = id then .ok (false, db)
    else .ok (true, { db with campaigns :=
      db.campaigns ++ [⟨id, Timeutil.formatSql reply.now, kind, some notes⟩] })

/-- Insert a removal request and return its row id. -/
def createRemovalRequest (brokerId channel campaignId jurisdiction templateId
    identitySnapshotHash : String) : Db Store τ String ℤ :=
  let channel := if channel = "" then "email" else channel
  statement fun reply db =>
    let columns : RequestColumns := ⟨brokerId, channel, campaignId, Timeutil.formatSql reply.now,
      jurisdiction, templateId, identitySnapshotHash⟩
    .ok (db.requests.seq + 1, { db with requests := db.requests.insert columns })

/-- A request by its number. -/
def Store.request (db : Store) (id : ℤ) : Option RemovalRequest :=
  (db.requests.find id).map fun columns => { columns with id := id }

/-- Fetch one removal request. -/
def getRemovalRequest (id : ℤ) : Db Store τ String (Option RemovalRequest) :=
  query fun _ db => db.request id

/-- Optional filters and pagination of a request list. -/
structure ListRemovalRequestsOptions where
  campaignId : Option String := none
  status : Option String := none
  brokerId : Option String := none
  limit : Option ℤ := none
  offset : Option ℤ := none
  deriving DecidableEq, Repr

/-- `LIMIT` and `OFFSET`: a negative limit is none, a negative offset is zero. -/
def paginate {α : Type} (limit offset : Option ℤ) (rows : List α) : List α :=
  let rows := rows.drop (offset.getD 0).toNat
  match limit with
  | some n => if n < 0 then rows else rows.take n.toNat
  | none => rows

/-- A request row with the columns of its state. -/
def Store.joined (db : Store) (row : ℤ × RequestColumns) : RemovalRequestRow :=
  let state := db.state row.1
  { row.2 with
    id := row.1
    currentStatus := state.map StateColumns.currentStatus
    lastEventAt := state.map StateColumns.lastEventAt
    sentAt := state.bind StateColumns.sentAt
    acknowledgedAt := state.bind StateColumns.acknowledgedAt
    resolvedAt := state.bind StateColumns.resolvedAt
    deadlineAt := state.bind StateColumns.deadlineAt
    nextActionAt := state.bind StateColumns.nextActionAt
    remindersSent := (state.map StateColumns.remindersSent).getD 0
    escalationLevel := (state.map StateColumns.escalationLevel).getD 0 }

/-- The order of rows with equal keys: the engine's, by id. -/
def TieLe (rank : ℤ → ℕ) (a b : ℤ) : Prop := rank a < rank b ∨ rank a = rank b ∧ a ≤ b

instance (rank : ℤ → ℕ) : DecidableRel (TieLe rank) := fun a b =>
  inferInstanceAs (Decidable (rank a < rank b ∨ rank a = rank b ∧ a ≤ b))

theorem tieLe_total (rank : ℤ → ℕ) (a b : ℤ) : TieLe rank a b ∨ TieLe rank b a := by
  unfold TieLe
  omega

theorem tieLe_trans {rank : ℤ → ℕ} {a b c : ℤ} (hab : TieLe rank a b) (hbc : TieLe rank b c) :
    TieLe rank a c := by
  unfold TieLe at *
  omega

/-- `ORDER BY created_at ASC`. -/
def CreatedLe (rank : ℤ → ℕ) (a b : RemovalRequestRow) : Prop :=
  a.createdAt < b.createdAt ∨ a.createdAt = b.createdAt ∧ TieLe rank a.id b.id

instance (rank : ℤ → ℕ) : DecidableRel (CreatedLe rank) := fun a b =>
  inferInstanceAs (Decidable (a.createdAt < b.createdAt ∨
    a.createdAt = b.createdAt ∧ TieLe rank a.id b.id))

/-- Whether a request row meets the filters. -/
def ListRemovalRequestsOptions.admits (options : ListRemovalRequestsOptions)
    (row : RemovalRequestRow) : Bool :=
  (options.campaignId.all fun id => row.campaignId = id) ∧
    (options.status.all fun status => row.currentStatus = some status) ∧
    (options.brokerId.all fun id => row.brokerId = id)

/-- List requests by the optional filters, oldest first. -/
def listRemovalRequests (options : ListRemovalRequestsOptions) :
    Db Store τ String (List RemovalRequestRow) :=
  query fun reply db =>
    paginate options.limit options.offset
      (((db.requests.rows.map db.joined).filter options.admits).insertionSort
        (CreatedLe reply.rank))

/-- Count requests by the optional filters. -/
def countRemovalRequests (campaignId status : Option String) : Db Store τ String ℤ :=
  let options : ListRemovalRequestsOptions := { campaignId := campaignId, status := status }
  query fun _ db => ((db.requests.rows.map db.joined).filter options.admits).length

/-! ### Tick candidates -/

/-- The candidate of a request with its state. -/
def tickCandidate (row : ℤ × RequestColumns) (state : StateColumns) : TickCandidate where
  id := row.1
  brokerId := row.2.brokerId
  campaignId := row.2.campaignId
  jurisdiction := row.2.jurisdiction
  currentStatus := state.currentStatus
  sentAt := state.sentAt.getD ""
  deadlineAt := state.deadlineAt.getD ""
  nextActionAt := state.nextActionAt.getD ""
  acknowledgedAt := state.acknowledgedAt.getD ""
  resolvedAt := state.resolvedAt.getD ""
  remindersSent := state.remindersSent
  escalationLevel := state.escalationLevel

/-- `ORDER BY next_action_at ASC`: absent values come first. -/
def NextActionLe (rank : ℤ → ℕ) (a b : Option String × TickCandidate) : Prop :=
  match a.1, b.1 with
  | none, some _ => True
  | some _, none => False
  | some x, some y => x < y ∨ x = y ∧ TieLe rank a.2.id b.2.id
  | none, none => TieLe rank a.2.id b.2.id

instance (rank : ℤ → ℕ) : DecidableRel (NextActionLe rank)
  | (none, _), (some _, _) => isTrue trivial
  | (some _, _), (none, _) => isFalse id
  | (some x, a), (some y, b) => inferInstanceAs (Decidable (x < y ∨ x = y ∧ TieLe rank a.id b.id))
  | (none, a), (none, b) => inferInstanceAs (Decidable (TieLe rank a.id b.id))

/-- The due or unscheduled requests, with the column they are ordered by. -/
def Store.dueRows (db : Store) (nowIso : String) : List (Option String × TickCandidate) :=
  db.requests.rows.filterMap fun row =>
    match db.state row.1 with
    | some state =>
        if state.nextActionAt.all fun text => text ≤ nowIso then
          some (state.nextActionAt, tickCandidate row state)
        else none
    | none => none

/-- Due or unscheduled requests in the tick order; a batch size up to zero is no limit. -/
def fetchTickCandidates (nowIso : String) (batchSize : ℤ) :
    Db Store τ String (List TickCandidate) :=
  query fun reply db =>
    let rows := ((db.dueRows nowIso).insertionSort (NextActionLe reply.rank)).map Prod.snd
    if batchSize > 0 then rows.take batchSize.toNat else rows

end EraseMe.Storage
