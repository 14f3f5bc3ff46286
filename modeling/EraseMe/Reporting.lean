import EraseMe.Library.BTreeMap
import EraseMe.Resolution

/-!
# `reporting`: campaign status and calendar

`getCampaignStatus` counts the requests of one campaign or of all, and `getCalendar` lists the
open ones by the week of their next action or deadline.  Both take a request with a `resolvedAt`
for done, whatever its status says.

A report stops the program where a sum of instants leaves the calendar, or where a timestamp is
cut inside a character (`ReportError.stopped`).
-/

namespace EraseMe.Reporting

open Chrono Json Sqlite Storage

variable {τ : Type}

/-- A campaign of a report. -/
structure CampaignRow where
  id : String
  createdAt : String
  kind : String
  notes : String
  deriving DecidableEq, Repr

/-- A request of a report. -/
structure RequestRow where
  id : ℤ
  brokerId : String
  channel : String
  campaignId : String
  createdAt : String
  jurisdiction : String
  templateId : String
  currentStatus : String
  sentAt : String
  acknowledgedAt : String
  resolvedAt : String
  deadlineAt : String
  nextActionAt : String
  lastEventAt : String
  remindersSent : ℤ
  escalationLevel : ℤ
  deriving DecidableEq, Repr

/-- Why a report is not made: a failed query, or the message the program stops with. -/
inductive ReportError
  | database (message : String)
  | stopped (message : String)
  deriving DecidableEq, Repr

/-! ### Timestamps -/

def iso (t : DateTime) : String := Timeutil.formatIso t

/-- A trailing `Z` becomes `+00:00`. -/
def pyTimestamp (value : String) : String :=
  if value.toList.getLast? = some 'Z' then String.ofList (value.toList.dropLast) ++ "+00:00"
  else value

/-- The message of a text cut inside a character. -/
def notABoundary : String := "byte index is not a char boundary"

/-- A text cut after a number of octets. -/
def cut : ℕ → List Char → Except String (List Char × List Char)
  | 0, s => .ok ([], s)
  | _ + 1, [] => .error notABoundary
  | n + 1, c :: s =>
      if c.utf8Size ≤ n + 1 then do
        let (head, rest) ← cut (n + 1 - c.utf8Size) s
        return (c :: head, rest)
      else .error notABoundary

/-- A naive timestamp, one more octet and five octets of a numeric offset. -/
def parseWithZone (s : List Char) : Except String (Option DateTime) := do
  let (head, rest) ← cut 19 s
  let (_, rest) ← cut 1 rest
  let (zone, _) ← cut 5 rest
  return do
    let naive ← parseNaive (wall .space) head
    let (offset, _) ← readOffset zone
    if -86400 < offset ∧ offset < 86400 then DateTime.ofParts? (naive.secs - offset) naive.nanos
    else none

/-- RFC 3339 first, then the two naive layouts, then a naive timestamp with an offset. -/
def parseTime (value : String) : Except String (Option DateTime) :=
  let s := value.toList
  if s = [] then .ok none
  else
    let rfc3339 := (parseRfc3339 s).bind fun (reading, offset) =>
      DateTime.ofParts? (reading.secs - offset) reading.nanos
    match rfc3339 <|> parseNaive (wall (.literal 'T')) s <|> parseNaive (wall .space) s with
    | some t => .ok (some t)
    | none => if value.utf8ByteSize ≥ 25 then parseWithZone s else .ok none

/-- An empty text becomes null. -/
def nullable (value : String) : Json := if value = "" then .null else .string value

/-! ### Rows -/

/-- `ORDER BY created_at DESC`; the engine orders campaigns of one time. -/
def CreatedGe (rank : ℤ → ℕ) (a b : Campaign × ℕ) : Prop :=
  b.1.createdAt < a.1.createdAt ∨ a.1.createdAt = b.1.createdAt ∧ TieLe rank a.2 b.2

instance (rank : ℤ → ℕ) : DecidableRel (CreatedGe rank) := fun a b =>
  inferInstanceAs (Decidable (b.1.createdAt < a.1.createdAt ∨
    a.1.createdAt = b.1.createdAt ∧ TieLe rank a.2 b.2))

/-- A campaign as it is read. -/
def campaignRow (campaign : Campaign) : CampaignRow where
  id := campaign.id
  createdAt := pyTimestamp campaign.createdAt
  kind := campaign.kind
  notes := campaign.notes.getD ""

/-- One campaign, all of them, or the latest. -/
def loadCampaigns (id : String) (all : Bool) : Db Store τ String (List CampaignRow) :=
  query fun reply db =>
    if id ≠ "" ∧ ¬ all then (db.campaigns.filter fun campaign => campaign.id = id).map campaignRow
    else
      let campaigns := (db.campaigns.zipIdx.insertionSort (CreatedGe reply.rank)).map
        fun campaign => campaignRow campaign.1
      if all then campaigns else campaigns.take 1

/-- A request with the nullable columns of its state, as texts. -/
def requestRow (row : RemovalRequestRow) : RequestRow where
  id := row.id
  brokerId := row.brokerId
  channel := row.channel
  campaignId := row.campaignId
  createdAt := pyTimestamp row.createdAt
  jurisdiction := row.jurisdiction
  templateId := row.templateId
  currentStatus := row.currentStatus.getD "PLANNED"
  sentAt := pyTimestamp (row.sentAt.getD "")
  acknowledgedAt := pyTimestamp (row.acknowledgedAt.getD "")
  resolvedAt := pyTimestamp (row.resolvedAt.getD "")
  deadlineAt := pyTimestamp (row.deadlineAt.getD "")
  nextActionAt := pyTimestamp (row.nextActionAt.getD "")
  lastEventAt := pyTimestamp (row.lastEventAt.getD "")
  remindersSent := row.remindersSent
  escalationLevel := row.escalationLevel

/-- The requests of some campaigns, oldest first. -/
def loadRequests (ids : List String) : Db Store τ String (List RequestRow) :=
  query fun reply db =>
    (((db.requests.rows.map db.joined).filter fun row => row.campaignId ∈ ids).insertionSort
      (CreatedLe reply.rank)).map requestRow

/-- The campaigns and requests of a report; an empty id stands for all campaigns. -/
def loadScope (campaignId : String) : Db Store τ String (List CampaignRow × List RequestRow) := do
  let campaigns ← loadCampaigns campaignId (campaignId = "")
  if campaigns.isEmpty then return (campaigns, [])
  else do
    let requests ← loadRequests (campaigns.map CampaignRow.id)
    return (campaigns, requests)

/-! ### The status report -/

/-- One more of a key. -/
def bump {κ : Type} [LinearOrder κ] (counts : BTreeMap κ ℤ) (key : κ) : BTreeMap κ ℤ :=
  counts.alter key fun n => n.getD 0 + 1

/-- `to_uppercase`, on the letters of ASCII. -/
def toUppercase (s : String) : String := String.ofList (s.toList.map Char.toUpper)

/-- The status a request is counted under. -/
def countedStatus (row : RequestRow) : String :=
  if toUppercase row.currentStatus = "" then "PLANNED" else toUppercase row.currentStatus

/-- Requests by status. -/
def countStatuses (rows : List RequestRow) : BTreeMap String ℤ :=
  rows.foldl (fun counts row => bump counts (countedStatus row)) .empty

def countsToValue (counts : BTreeMap String ℤ) : Json :=
  .object (counts.entries.map fun entry => (entry.1, .int entry.2))

/-- The counters of the loop over the requests. -/
structure StatusCounts where
  channels : BTreeMap String ℤ
  escalation : BTreeMap ℤ ℤ
  resolved : ℤ
  overdue : ℤ
  due7 : ℤ
  due30 : ℤ
  tick : ℤ

def StatusCounts.start : StatusCounts where
  channels := .empty
  escalation := [0, 1, 2].foldl (fun levels level => levels.alter level fun _ => 0) .empty
  resolved := 0
  overdue := 0
  due7 := 0
  due30 := 0
  tick := 0

/-- The instant some days later, if the calendar has it. -/
def daysLater (t : DateTime) (days : ℤ) : Except String DateTime :=
  match t.checkedAddSigned (durationDays days) with
  | some later => .ok later
  | none => .error Deadlines.overflowed

/-- Whether an instant lies within some days from now on. -/
def withinDays (now t : DateTime) (days : ℤ) : Except String Bool :=
  if now ≤ t then (daysLater now days).map fun limit => t ≤ limit else .ok false

/-- The counters of the deadline of an open request. -/
def countDeadline (now : DateTime) (counts : StatusCounts) :
    Option DateTime → Except String StatusCounts
  | none => .ok counts
  | some deadline => do
      let within7 ← withinDays now deadline 7
      let within30 ← withinDays now deadline 30
      return { counts with
        overdue := if deadline ≤ now then counts.overdue + 1 else counts.overdue
        due7 := if within7 then counts.due7 + 1 else counts.due7
        due30 := if within30 then counts.due30 + 1 else counts.due30 }

/-- The counters of the next action of an open request. -/
def countNextAction (now : DateTime) (counts : StatusCounts) (nextAction : Option DateTime) :
    StatusCounts :=
  { counts with
    tick := if nextAction.any fun t => t ≤ now then counts.tick + 1 else counts.tick }

/-- One round of the loop over the requests. -/
def countRequest (now : DateTime) (counts : StatusCounts) (request : RequestRow) :
    Except String StatusCounts :=
  let counts := { counts with
    channels := bump counts.channels request.channel
    escalation := bump counts.escalation request.escalationLevel }
  if request.resolvedAt ≠ "" then .ok { counts with resolved := counts.resolved + 1 }
  else do
    let deadline ← parseTime request.deadlineAt
    let counts ← countDeadline now counts deadline
    let nextAction ← parseTime request.nextActionAt
    return countNextAction now counts nextAction

def scopeName (campaignId : String) : String := if campaignId = "" then "all" else campaignId

/-- The report of the counters. -/
def statusValue (campaignId : String) (now : DateTime) (requests : List RequestRow)
    (counts : StatusCounts) : Json :=
  goMapOrder (.object
    [("schema_version", .int 1),
      ("as_of", .string (iso now)),
      ("scope", .object [("campaign_id", .string (scopeName campaignId))]),
      ("totals", .object
        [("requests", .int requests.length),
          ("resolved", .int counts.resolved),
          ("open", .int (requests.length - counts.resolved))]),
      ("by_status", countsToValue (countStatuses requests)),
      ("by_channel", countsToValue counts.channels),
      ("escalation", .object
        [("none", .int ((counts.escalation.get 0).getD 0)),
          ("reminder", .int ((counts.escalation.get 1).getD 0)),
          ("dpa_pending", .int ((counts.escalation.get 2).getD 0))]),
      ("upcoming", .object
        [("overdue", .int counts.overdue),
          ("deadline_due_within_7d", .int counts.due7),
          ("deadline_due_within_30d", .int counts.due30),
          ("tick_actions_ready", .int counts.tick)])])

/-- The result of a computation that stops the program where it fails. -/
def orStop {α : Type} (result : Except String α) : Db Store τ ReportError α :=
  match result with
  | .ok a => pure a
  | .error message => fail (.stopped message)

/-- The status of a campaign. -/
def getCampaignStatus (campaignId : String) (now : DateTime) : Db Store τ ReportError Json := do
  let (_, requests) ← Db.mapError (loadScope campaignId) .database
  let counts ← orStop (requests.foldlM (countRequest now) .start)
  return statusValue campaignId now requests counts

/-! ### The calendar -/

/-- The ISO year and week of an instant: those of the Thursday of its week. -/
def isoWeek (t : DateTime) : ℤ × ℤ :=
  let day := t.secs / 86400
  let thursday := day - (day + 3) % 7 + 3
  let year := (Calendar.civilFromDays thursday).year
  (year, (thursday - Calendar.daysFromCivil ⟨year, 1, 1⟩) / 7 + 1)

/-- A number with at least some characters, filled with zeros behind the sign. -/
def zeroPadded (width : ℕ) (n : ℤ) : String :=
  let digits := toString n.natAbs
  let sign := if n < 0 then "-" else ""
  sign ++ String.ofList (List.replicate (width - sign.length - digits.length) '0') ++ digits

/-- The name of a week. -/
def weekName (t : DateTime) : String :=
  zeroPadded 4 (isoWeek t).1 ++ "-W" ++ zeroPadded 2 (isoWeek t).2

/-- The end of the horizon; the product of the weeks wraps. -/
def horizonUntil (now : DateTime) (weeks : ℤ) : Except String DateTime :=
  daysLater now (wrapI64 (weeks * 7))

/-- Days from now, rounded down. -/
def daysFromNow (now t : DateTime) : ℤ :=
  let days := Deadlines.daysBetween t now
  if t < now ∧ durationDays days ≠ t.signedDurationSince now then days - 1 else days

/-- The instant a request is listed at, with its text and kind. -/
def markerOf (request : RequestRow) : String × String :=
  if request.nextActionAt = "" then (request.deadlineAt, "deadline")
  else (request.nextActionAt, "next_action")

/-- A request in the calendar. -/
def entryValue (request : RequestRow) (days : ℤ) : Json :=
  .object
    [("request_id", .int request.id),
      ("broker_id", .string request.brokerId),
      ("campaign_id", .string request.campaignId),
      ("jurisdiction", .string request.jurisdiction),
      ("current_status", .string request.currentStatus),
      ("marker", .string (markerOf request).2),
      ("marker_at", .string (markerOf request).1),
      ("days_from_now", .int days),
      ("overdue", .bool (days < 0)),
      ("deadline_at", nullable request.deadlineAt),
      ("next_action_at", nullable request.nextActionAt),
      ("escalation_level", .int request.escalationLevel),
      ("reminders_sent", .int request.remindersSent)]

/-- The entries by week, and their counts. -/
structure Buckets where
  weeks : BTreeMap String (List Json)
  entries : ℤ
  overdue : ℤ

def Buckets.start : Buckets := ⟨.empty, 0, 0⟩

/-- The instant a request is listed at, if it is open and the instant is within the horizon. -/
def listedAt (horizon : DateTime) (request : RequestRow) : Except String (Option DateTime) :=
  if request.resolvedAt ≠ "" then .ok none
  else (parseTime (markerOf request).1).map fun at_ => at_.filter fun t => t ≤ horizon

/-- One round of the loop over the requests. -/
def listRequest (now horizon : DateTime) (buckets : Buckets) (request : RequestRow) :
    Except String Buckets := do
  let listed ← listedAt horizon request
  return match listed with
    | none => buckets
    | some t =>
        let days := daysFromNow now t
        { weeks := buckets.weeks.alter (weekName t)
            fun entries => entries.getD [] ++ [entryValue request days]
          entries := buckets.entries + 1
          overdue := if days < 0 then buckets.overdue + 1 else buckets.overdue }

/-- The calendar as a value. -/
def calendarValue (campaignId : String) (weeks : ℤ) (now horizon : DateTime) (buckets : Buckets) :
    Json :=
  goMapOrder (.object
    [("schema_version", .int 1),
      ("as_of", .string (iso now)),
      ("horizon_weeks", .int weeks),
      ("horizon_until", .string (iso horizon)),
      ("scope", .object [("campaign_id", .string (scopeName campaignId))]),
      ("totals", .object
        [("entries", .int buckets.entries),
          ("overdue", .int buckets.overdue),
          ("weeks_with_actions", .int buckets.weeks.entries.length)]),
      ("weeks", .array (buckets.weeks.entries.map fun week =>
        .object [("week", .string week.1), ("entries", .array week.2)]))])

/-- The requests with something due up to the horizon, by week. -/
def getCalendar (campaignId : String) (weeks : ℤ) (now : DateTime) :
    Db Store τ ReportError Json := do
  let horizon ← orStop (horizonUntil now weeks)
  let (_, requests) ← Db.mapError (loadScope campaignId) .database
  let buckets ← orStop (requests.foldlM (listRequest now horizon) .start)
  return calendarValue campaignId weeks now horizon buckets

end EraseMe.Reporting
