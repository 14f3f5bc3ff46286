import EraseMe.Storage.Repository

/-!
# `storage::projection`: event append and the `request_state` projection

The event log is authoritative.  A state is the fold of the decoded events of a request in replay
order; `upsertStateTx` writes it, `appendAndProject` appends an event and writes the state in one
transaction, and `rebuildAllStates` writes the states that look out of date.

Rows that do not decode are skipped by the loader; an event with an empty type or the zero instant
is skipped by the fold (`Skipped`).  Every other event sets the last event, and most set the
status.
-/

namespace EraseMe.Storage

open Chrono Json Sqlite

variable {τ : Type}

/-! ### Errors -/

/-- Why an append fails. -/
inductive ProjectionError
  | unknownEventType (value : String)
  | unknownSource (value : String)
  | database (message : String)
  | payloadSerialization (message : String)
  deriving DecidableEq, Repr

/-- The text of the error. -/
def ProjectionError.display : ProjectionError → String
  | unknownEventType value => "eventstore: unknown event type: " ++ Text.debugStr value
  | unknownSource value => "eventstore: unknown source: " ++ Text.debugStr value
  | database message => message
  | payloadSerialization message => "eventstore: marshal payload: " ++ message

/-! ### The state -/

/-- The shape of one `request_state` projection. -/
structure ProjectionState where
  acknowledgedAt : Option String
  currentStatus : String
  deadlineAt : Option String
  escalationLevel : ℤ
  lastEventAt : Option String
  lastEventId : ℤ
  nextActionAt : Option String
  remindersSent : ℤ
  requestId : ℤ
  resolvedAt : Option String
  sentAt : Option String
  deriving DecidableEq, Repr

/-- The state before a request has any replayable event. -/
def ProjectionState.new (requestId : ℤ) : ProjectionState where
  acknowledgedAt := none
  currentStatus := "PLANNED"
  deadlineAt := none
  escalationLevel := 0
  lastEventAt := none
  lastEventId := 0
  nextActionAt := none
  remindersSent := 0
  requestId := requestId
  resolvedAt := none
  sentAt := none

/-! ### The fold -/

/-- The processor the program is built for: out-of-range numbers convert differently. -/
inductive TargetArch
  | x86_64
  | other
  deriving DecidableEq, Repr

/-- A double as a 64-bit integer. -/
def goFloatToInt (arch : TargetArch) (value : ℤ × ℤ) : ℤ :=
  if arch = .x86_64 ∧ truncate value ≥ 9223372036854775808 then i64Min
  else max i64Min (min Json.i64Max (truncate value))

/-- A numeric member of a payload. -/
def payloadInteger (arch : TargetArch) (payload : Map) (key : String) : Option ℤ :=
  ((payload.get key).bind asF64).map (goFloatToInt arch)

/-- The 64-bit result of a product. -/
def wrapI64 (n : ℤ) : ℤ := (n + 9223372036854775808) % 18446744073709551616 - 9223372036854775808

def isGoZeroTime (t : DateTime) : Bool := t.timestamp = -62135596800 ∧ t.nanos = 0

/-- The status after an event. -/
def statusFor : EventType → Option String
  | .planned => some "PLANNED"
  | .sent => some "AWAITING_ACK"
  | .sendFailed => some "SEND_FAILED"
  | .bounce => some "BOUNCE"
  | .ack => some "ACK"
  | .autoresponder => some "AWAITING_ACK"
  | .verificationRequested => some "AWAITING_USER_ACTION"
  | .verificationProvided => some "AWAITING_RESPONSE"
  | .humanActionRequired => some "AWAITING_USER_ACTION"
  | .confirmed => some "CONFIRMED"
  | .rejectedFinal => some "REJECTED_FINAL"
  | .confirmationLinkClicked => some "CONFIRMED"
  | .rebuttalSent => some "AWAITING_RESPONSE"
  | .reminderSent => some "AWAITING_ACK"
  | .deadlineReached => some "OVERDUE"
  | .dpaComplaintDrafted => some "ESCALATED"
  | .dpaComplaintFiled => some "DPA_FILED"
  | .rescanTriggered => some "RE_SCAN_DUE"
  | .replyDrafted | .noteAdded | .unknown _ => none

/-- Why an event is not replayed. -/
inductive ReplayEventError
  | emptyEventType
  | emptyOccurredAt
  deriving DecidableEq, Repr

def nanosecondsPerDay : ℤ := 86400000000000

/-- The response days of a SENT payload. -/
def responseDays (arch : TargetArch) (payload : Map) : ℤ :=
  max ((payloadInteger arch payload "expected_response_days").getD 30) 0

/-- The deadline of a SENT event, when it lies in the calendar. -/
def deadlineOf (arch : TargetArch) (event : EventRecord) : Option DateTime :=
  event.occurredAt.checkedAddSigned
    (wrapI64 (responseDays arch event.payload * nanosecondsPerDay))

/-- What an event does besides the status and the last event. -/
def effect (arch : TargetArch) (event : EventRecord) (state : ProjectionState) : ProjectionState :=
  match event.eventType with
  | .sent =>
      let state := { state with sentAt := some (Timeutil.formatIso event.occurredAt) }
      match deadlineOf arch event with
      | some deadline => { state with deadlineAt := some (Timeutil.formatIso deadline) }
      | none => state
  | .ack => { state with acknowledgedAt := some (Timeutil.formatIso event.occurredAt) }
  | .confirmed | .rejectedFinal =>
      { state with resolvedAt := some (Timeutil.formatIso event.occurredAt) }
  | .reminderSent =>
      let count := (payloadInteger arch event.payload "count").getD 0
      { state with remindersSent := if count = 0 then 1 else count }
  | .deadlineReached => { state with escalationLevel := 1 }
  | .dpaComplaintDrafted => { state with escalationLevel := 2 }
  | _ => state

/-- Apply one event, or refuse it. -/
def applyEvent (arch : TargetArch) (state : ProjectionState) (event : EventRecord) :
    Except ReplayEventError ProjectionState :=
  if event.eventType = .unknown "" then .error .emptyEventType
  else if isGoZeroTime event.occurredAt then .error .emptyOccurredAt
  else
    let state := match statusFor event.eventType with
      | some status => { state with currentStatus := status }
      | none => state
    let state := { state with
      lastEventId := event.id
      lastEventAt := some (Timeutil.formatIso event.occurredAt) }
    .ok (effect arch event state)

/-- One step of the replay: a refused event changes nothing. -/
def replayEvent (arch : TargetArch) (state : ProjectionState) (event : EventRecord) :
    ProjectionState :=
  match applyEvent arch state event with
  | .ok state => state
  | .error _ => state

/-- The state of a list of events in replay order. -/
def foldEvents (arch : TargetArch) (requestId : ℤ) (events : List EventRecord) : ProjectionState :=
  events.foldl (replayEvent arch) (.new requestId)

/-! ### Append and projection -/

/-- Only known names. -/
def validateAppend (eventType : EventType) (source : Source) : Except ProjectionError Unit :=
  match eventType with
  | .unknown value => .error (.unknownEventType value)
  | _ =>
      match source with
      | .unknown value => .error (.unknownSource value)
      | _ => .ok ()

/-- The payload column of an appended event. -/
def payloadText (payload : Map) : PayloadText :=
  .document (if payload.isEmpty then .object [] else goMapOrder (.object payload))

/-- The row of an appended event. -/
def eventColumns (requestId : ℤ) (eventType : EventType) (payload : Map) (source : Source)
    (occurredAt recordedAt : DateTime) : EventColumns where
  requestId := requestId
  occurredAt := Timeutil.formatSql occurredAt
  recordedAt := Timeutil.formatSql recordedAt
  eventType := eventType.asStr
  payloadJson := payloadText payload
  source := source.asStr

def foreignKeyFailed : String := "FOREIGN KEY constraint failed"

/-- Validate an event and insert its row. -/
def appendEventTx (requestId : ℤ) (eventType : EventType) (payload : Map) (source : Source)
    (occurredAt : DateTime) : Db Store τ ProjectionError ℤ :=
  match validateAppend eventType source with
  | .error e => fail e
  | .ok () =>
      Db.mapError
        (statement fun reply db =>
          match db.requests.find requestId with
          | none => .error foreignKeyFailed
          | some _ =>
              let row := eventColumns requestId eventType payload source occurredAt reply.now
              .ok (db.events.seq + 1, { db with events := db.events.insert row }))
        .database

/-- Decode a row for the replay. -/
def decodeReplayEvent : ℤ × EventColumns → Option EventRecord := decodeEvent

/-- The decoded events of a request in replay order. -/
def Store.replayed (db : Store) (requestId : ℤ) : List EventRecord :=
  (db.replayRows requestId).filterMap decodeReplayEvent

/-- The log of a request. -/
def loadEvents (requestId : ℤ) : Db Store τ ProjectionError (List EventRecord) :=
  Db.mapError (query fun _ db => db.replayed requestId) .database

/-- The row written for a state; a missing last event time is the time of the statement. -/
def stateColumns (state : ProjectionState) (now : DateTime) : StateColumns where
  currentStatus := state.currentStatus
  lastEventId := state.lastEventId
  lastEventAt := state.lastEventAt.getD (Timeutil.formatSql now)
  sentAt := state.sentAt
  acknowledgedAt := state.acknowledgedAt
  resolvedAt := state.resolvedAt
  deadlineAt := state.deadlineAt
  nextActionAt := state.nextActionAt
  remindersSent := state.remindersSent
  escalationLevel := state.escalationLevel

/-- Replay the log of a request and write its state. -/
def upsertStateTx (arch : TargetArch) (requestId : ℤ) :
    Db Store τ ProjectionError ProjectionState := do
  let events ← loadEvents requestId
  let state := foldEvents arch requestId events
  Db.mapError
    (statement fun reply db =>
      match db.requests.find state.requestId with
      | none => .error foreignKeyFailed
      | some _ => .ok ((), { db with
          state := Function.update db.state state.requestId (some (stateColumns state reply.now)) }))
    .database
  return state

/-- Append and project in one. -/
def appendAndProjectTx (arch : TargetArch) (requestId : ℤ) (eventType : EventType) (payload : Map)
    (source : Source) (occurredAt : DateTime) :
    Db Store τ ProjectionError (ℤ × ProjectionState) := do
  let eventId ← appendEventTx requestId eventType payload source occurredAt
  let state ← upsertStateTx arch requestId
  return (eventId, state)

/-- Append one event and commit it. -/
def appendEvent (requestId : ℤ) (eventType : EventType) (payload : Map) (source : Source)
    (occurredAt : DateTime) : Db Store τ ProjectionError ℤ :=
  transaction .database (appendEventTx requestId eventType payload source occurredAt)

/-- Append one event and update its projection in one transaction. -/
def appendAndProject (arch : TargetArch) (requestId : ℤ) (eventType : EventType) (payload : Map)
    (source : Source) (occurredAt : DateTime) :
    Db Store τ ProjectionError (ℤ × ProjectionState) :=
  transaction .database (appendAndProjectTx arch requestId eventType payload source occurredAt)

/-- Rebuild and write the state of one request. -/
def upsertState (arch : TargetArch) (requestId : ℤ) : Db Store τ ProjectionError ProjectionState :=
  transaction .database (upsertStateTx arch requestId)

/-- `slice::chunks`; `fuel` is the length of the list. -/
def chunks {α : Type} (size : ℕ) : ℕ → List α → List (List α)
  | 0, _ => []
  | _, [] => []
  | fuel + 1, l => l.take size :: chunks size fuel (l.drop size)

/-- Whether the state of a request is missing or an event is newer than it. -/
def Store.dirty (db : Store) (requestId : ℤ) : Bool :=
  (db.eventRows requestId).any fun row =>
    match db.state requestId with
    | none => true
    | some state => row.1 > state.lastEventId

/-- Rebuild every request whose latest event is newer than its state; the number written. -/
def rebuildAllStates (arch : TargetArch) (chunkSize : ℕ) : Db Store τ ProjectionError ℕ := do
  let chunkSize := if chunkSize = 0 then 100 else chunkSize
  let dirty ← Db.mapError
    (query fun reply db =>
      ((db.requests.rows.map Prod.fst).filter db.dirty).insertionSort (TieLe reply.rank))
    .database
  let rebuilt ← forEach (fun chunk => forEach (upsertState arch) chunk)
    (chunks chunkSize dirty.length dirty)
  return (rebuilt.map List.length).sum

end EraseMe.Storage
