import EraseMe.Jsonorder
import EraseMe.Library.Sqlite
import EraseMe.Timeutil

/-!
# `storage::types`: rows of the event store

The typed rows and the tables.  Timestamp columns hold texts; the payload column holds a JSON
text, kept here as what decoding it gives.
-/

namespace EraseMe.Storage

open Chrono Json Sqlite

/-! ### Event types and sources -/

/-- The event catalogue; a row may also carry a type outside it. -/
inductive EventType
  | planned
  | sent
  | sendFailed
  | bounce
  | autoresponder
  | ack
  | verificationRequested
  | verificationProvided
  | humanActionRequired
  | confirmationLinkClicked
  | replyDrafted
  | rebuttalSent
  | reminderSent
  | deadlineReached
  | dpaComplaintDrafted
  | dpaComplaintFiled
  | confirmed
  | rejectedFinal
  | rescanTriggered
  | noteAdded
  | unknown (value : String)
  deriving DecidableEq, Repr

/-- The name in the store. -/
def EventType.asStr : EventType → String
  | planned => "PLANNED"
  | sent => "SENT"
  | sendFailed => "SEND_FAILED"
  | bounce => "BOUNCE"
  | autoresponder => "AUTORESPONDER"
  | ack => "ACK"
  | verificationRequested => "VERIFICATION_REQUESTED"
  | verificationProvided => "VERIFICATION_PROVIDED"
  | humanActionRequired => "HUMAN_ACTION_REQUIRED"
  | confirmationLinkClicked => "CONFIRMATION_LINK_CLICKED"
  | replyDrafted => "REPLY_DRAFTED"
  | rebuttalSent => "REBUTTAL_SENT"
  | reminderSent => "REMINDER_SENT"
  | deadlineReached => "DEADLINE_REACHED"
  | dpaComplaintDrafted => "DPA_COMPLAINT_DRAFTED"
  | dpaComplaintFiled => "DPA_COMPLAINT_FILED"
  | confirmed => "CONFIRMED"
  | rejectedFinal => "REJECTED_FINAL"
  | rescanTriggered => "RE_SCAN_TRIGGERED"
  | noteAdded => "NOTE_ADDED"
  | unknown value => value

/-- The catalogue, in the order of its declaration. -/
def EventType.catalogue : List EventType :=
  [planned, sent, sendFailed, bounce, autoresponder, ack, verificationRequested,
    verificationProvided, humanActionRequired, confirmationLinkClicked, replyDrafted, rebuttalSent,
    reminderSent, deadlineReached, dpaComplaintDrafted, dpaComplaintFiled, confirmed, rejectedFinal,
    rescanTriggered, noteAdded]

/-- An event by its name. -/
def EventType.fromWire (value : String) : EventType :=
  (catalogue.find? fun t => t.asStr = value).getD (unknown value)

/-- The types an event may be appended with. -/
def EventType.InCatalogue (t : EventType) : Prop := t ∈ catalogue

instance (t : EventType) : Decidable t.InCatalogue :=
  inferInstanceAs (Decidable (t ∈ EventType.catalogue))

/-- The writer identity recorded on an event. -/
inductive Source
  | system
  | inbox
  | user
  | scheduler
  | unknown (value : String)
  deriving DecidableEq, Repr

/-- The name in the store. -/
def Source.asStr : Source → String
  | system => "system"
  | inbox => "inbox"
  | user => "user"
  | scheduler => "scheduler"
  | unknown value => value

/-- A source by its name. -/
def Source.fromWire (value : String) : Source :=
  ([system, inbox, user, scheduler].find? fun s => s.asStr = value).getD (unknown value)

theorem EventType.fromWire_asStr {t : EventType} (h : ∀ v, t ≠ unknown v) :
    fromWire t.asStr = t := by
  cases t with
  | unknown value => exact absurd rfl (h value)
  | _ => decide

theorem EventType.inCatalogue_iff (t : EventType) : t.InCatalogue ↔ ∀ v, t ≠ unknown v := by
  constructor
  · rintro h v rfl
    simp [InCatalogue, catalogue] at h
  · intro h
    cases t with
    | unknown value => exact absurd rfl (h value)
    | _ => decide

/-! ### Rows -/

/-- A payload column: white space only, a JSON text, or a text that is no JSON. -/
inductive PayloadText
  | blank
  | document (v : Json)
  | malformed

/-- A row of `campaigns`. -/
structure Campaign where
  id : String
  createdAt : String
  kind : String
  notes : Option String
  deriving DecidableEq, Repr

/-- A row of `removal_requests` without its id. -/
structure RequestColumns where
  brokerId : String
  channel : String
  campaignId : String
  createdAt : String
  jurisdiction : String
  templateId : String
  identitySnapshotHash : String
  deriving DecidableEq, Repr

/-- A row of `removal_requests`. -/
structure RemovalRequest extends RequestColumns where
  id : ℤ
  deriving DecidableEq, Repr

/-- A row of `request_events` without its id. -/
structure EventColumns where
  requestId : ℤ
  occurredAt : String
  recordedAt : String
  eventType : String
  payloadJson : PayloadText
  source : String

/-- A row of `request_state` without its request id. -/
structure StateColumns where
  currentStatus : String
  lastEventId : ℤ
  lastEventAt : String
  sentAt : Option String
  acknowledgedAt : Option String
  resolvedAt : Option String
  deadlineAt : Option String
  nextActionAt : Option String
  remindersSent : ℤ
  escalationLevel : ℤ
  deriving DecidableEq, Repr

/-- A row of `manual_tasks` without its id. -/
structure TaskColumns where
  requestId : Option ℤ
  brokerId : String
  brokerName : String
  formUrl : String
  reason : String
  instructions : String
  screenshotPath : String
  htmlSnapshotPath : String
  formFieldsJson : String
  status : String
  createdAt : String
  completedAt : Option String
  notes : String
  deriving DecidableEq, Repr

/-- A removal request joined with the nullable columns of its state. -/
structure RemovalRequestRow extends RemovalRequest where
  currentStatus : Option String
  lastEventAt : Option String
  sentAt : Option String
  acknowledgedAt : Option String
  resolvedAt : Option String
  deadlineAt : Option String
  nextActionAt : Option String
  remindersSent : ℤ
  escalationLevel : ℤ
  deriving DecidableEq, Repr

/-- A decoded row of `request_events`. -/
structure EventRecord where
  id : ℤ
  requestId : ℤ
  occurredAt : DateTime
  recordedAt : DateTime
  eventType : EventType
  payload : Map
  source : Source

/-- A request selected by the tick query. -/
structure TickCandidate where
  id : ℤ
  brokerId : String
  campaignId : String
  jurisdiction : String
  currentStatus : String
  sentAt : String
  deadlineAt : String
  nextActionAt : String
  acknowledgedAt : String
  resolvedAt : String
  remindersSent : ℤ
  escalationLevel : ℤ
  deriving DecidableEq, Repr

/-! ### The store -/

/-- The tables of the database. -/
structure Store where
  campaigns : List Campaign
  requests : Table RequestColumns
  events : Table EventColumns
  state : ℤ → Option StateColumns
  tasks : Table TaskColumns

/-- The tables of a new database. -/
def Store.fresh : Store := ⟨[], .empty, .empty, fun _ => none, .empty⟩

end EraseMe.Storage
