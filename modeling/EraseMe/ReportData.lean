import EraseMe.Library.JsonPath
import EraseMe.Reporting

/-!
# `reporting`: dashboard and report data

`getReportData` gathers the campaigns of a report with their requests and events, and the figures
over all of them; `getDashboardData` is the shorter form with the latest events.  Rates and averages
are doubles, which are the rational numbers they stand for.
-/

namespace EraseMe.Reporting

open Chrono Json Sqlite Storage

variable {τ : Type}

/-! ### Doubles -/

/-- The integer nearest to a number, ties to even. -/
def roundEven (q : ℚ) : ℤ :=
  if q - ⌊q⌋ < 1 / 2 ∨ q - ⌊q⌋ = 1 / 2 ∧ 2 ∣ ⌊q⌋ then ⌊q⌋ else ⌊q⌋ + 1

/-- The number with 53 significant bits nearest to a number. -/
def nearest (q : ℚ) : ℚ :=
  let unit : ℚ := 2 ^ (Int.log 2 |q| - 52)
  roundEven (q / unit) * unit

/-- `as i64`. -/
def toI64 (value : ℚ) : ℤ := max i64Min (min Json.i64Max (value.num.tdiv value.den))

/-- Half away from zero at one decimal. -/
def round1 (value : ℚ) : ℚ :=
  let scaled := nearest (value * 10)
  let shifted := if 0 ≤ value then nearest (scaled + 1 / 2) else nearest (scaled - 1 / 2)
  nearest (nearest (toI64 shifted) / 10)

/-- Integral doubles are written as integers. -/
def goJsonNumber (value : ℚ) : Json :=
  if value.den = 1 ∧ i64Min ≤ value.num ∧ value.num < 9223372036854775808 then .int value.num
  else .float value.num (-(Nat.log2 value.den))

def sum (times : List ℚ) : ℚ := times.foldl (fun s time => nearest (s + time)) 0

/-- The mean of the times. -/
def average (times : List ℚ) : Option ℚ :=
  if times.isEmpty then none else some (nearest (sum times / times.length))

/-- One decimal, or `null`. -/
def round1OrNull (value : Option ℚ) : Json :=
  match value with
  | some number => goJsonNumber (round1 number)
  | none => .null

/-- A count as a percentage of a total. -/
def percentage (count total : ℤ) : Json :=
  goJsonNumber (round1 (nearest (nearest (count / total) * 100)))

/-! ### Events -/

/-- An event of a report. -/
structure EventRow where
  id : ℤ
  requestId : ℤ
  eventType : String
  occurredAt : String
  source : String
  deriving DecidableEq, Repr

def eventRow (row : ℤ × EventColumns) : EventRow where
  id := row.1
  requestId := row.2.requestId
  eventType := row.2.eventType
  occurredAt := pyTimestamp row.2.occurredAt
  source := row.2.source

/-- The events of some requests, oldest first. -/
def loadEvents (requests : List RequestRow) : Db Store τ String (List EventRow) :=
  if requests.isEmpty then return []
  else query fun _ db =>
    ((db.events.rows.filter fun row => row.2.requestId ∈ requests.map RequestRow.id).insertionSort
      ReplayLe).map eventRow

/-- The rows by a key, in their order. -/
def groupBy {κ α : Type} [LinearOrder κ] (key : α → κ) (rows : List α) : BTreeMap κ (List α) :=
  rows.foldl (fun groups row => groups.alter (key row) fun rows => rows.getD [] ++ [row]) .empty

theorem get_groupBy {κ α : Type} [LinearOrder κ] (key : α → κ) (rows : List α) (k : κ) :
    ((groupBy key rows).get k).getD [] = rows.filter fun row => key row = k := by
  suffices h : ∀ groups : BTreeMap κ (List α), ((rows.foldl (fun groups row =>
      groups.alter (key row) fun rows => rows.getD [] ++ [row]) groups).get k).getD [] =
        (groups.get k).getD [] ++ rows.filter fun row => key row = k by
    rw [groupBy, h, BTreeMap.get_empty]
    rfl
  induction rows with
  | nil => intro groups; simp
  | cons row rows ih =>
    intro groups
    rw [List.foldl_cons, ih, BTreeMap.get_alter, List.filter_cons]
    by_cases h : key row = k
    · rw [if_pos h.symm, if_pos (decide_eq_true h), h, Option.getD_some, List.append_assoc]
      rfl
    · rw [if_neg fun e => h e.symm, if_neg (by simpa using h)]

/-- The requests of a campaign. -/
def requestsOf (requests : List RequestRow) (campaign : CampaignRow) : List RequestRow :=
  requests.filter fun request => request.campaignId = campaign.id

/-! ### Response times -/

/-- The days from sent to resolved, where both parse. -/
def responseTime (row : RequestRow) : Except String (Option ℚ) := do
  let sent ← parseTime row.sentAt
  let resolved ← parseTime row.resolvedAt
  return do nearest (numSeconds ((← resolved).signedDurationSince (← sent)) / 86400)

/-- The times of all answers. -/
def responseTimes (rows : List RequestRow) : Except String (List ℚ) :=
  (rows.mapM responseTime).map (List.filterMap id)

/-! ### Campaigns -/

/-- An event as it is shown. -/
def eventValue (event : EventRow) : Json :=
  .object
    [("id", .int event.id),
      ("request_id", .int event.requestId),
      ("event_type", .string event.eventType),
      ("occurred_at", .string event.occurredAt),
      ("source", .string event.source)]

/-- The members that both forms of a request have. -/
def requestMembers (request : RequestRow) : Map :=
  [("id", .int request.id),
    ("broker_id", .string request.brokerId),
    ("channel", .string request.channel),
    ("campaign_id", .string request.campaignId),
    ("created_at", .string request.createdAt),
    ("jurisdiction", .string request.jurisdiction),
    ("template_id", .string request.templateId),
    ("current_status", .string request.currentStatus),
    ("sent_at", nullable request.sentAt),
    ("acknowledged_at", nullable request.acknowledgedAt),
    ("resolved_at", nullable request.resolvedAt),
    ("deadline_at", nullable request.deadlineAt),
    ("reminders_sent", .int request.remindersSent),
    ("escalation_level", .int request.escalationLevel)]

/-- A request with its events. -/
def requestMap (request : RequestRow) (events : List EventRow) : Json :=
  .object (requestMembers request ++ [("events", .array (events.map eventValue))])

/-- A request with the time of its last event instead. -/
def dashboardRequestMap (request : RequestRow) : Json :=
  .object (requestMembers request ++ [("last_event_at", nullable request.lastEventAt)])

/-- How many of a key. -/
def countOf (counts : BTreeMap String ℤ) (key : String) : ℤ := (counts.get key).getD 0

/-- The counts of the named statuses. -/
def statusMembers (counts : BTreeMap String ℤ) : Map :=
  [("planned", .int (countOf counts "PLANNED")),
    ("sent", .int (countOf counts "SENT")),
    ("awaiting_ack", .int (countOf counts "AWAITING_ACK")),
    ("awaiting_response", .int (countOf counts "AWAITING_RESPONSE")),
    ("confirmed", .int (countOf counts "CONFIRMED")),
    ("rejected", .int (countOf counts "REJECTED_FINAL")),
    ("overdue", .int (countOf counts "OVERDUE"))]

/-- Whether a sum that overflows stops the program or wraps. -/
inductive Build
  | checked
  | wrapping
  deriving DecidableEq, Repr

/-- A sum, if it fits. -/
def Build.add (build : Build) (a b : ℤ) : Except String ℤ :=
  if i64Min ≤ a + b ∧ a + b ≤ Json.i64Max then .ok (a + b)
  else
    match build with
    | .checked => .error "attempt to add with overflow"
    | .wrapping => .ok (wrapI64 (a + b))

/-- All reminders. -/
def totalReminders (build : Build) (requests : List RequestRow) : Except String ℤ :=
  requests.foldlM (fun reminders request => build.add reminders request.remindersSent) 0

/-- The numbers of a campaign. -/
def aggregateCampaign (build : Build) (campaign : CampaignRow) (requests : List RequestRow)
    (events : BTreeMap ℤ (List EventRow)) : Except String Json := do
  let counts := countStatuses requests
  let times ← responseTimes requests
  let reminders ← totalReminders build requests
  let total : ℤ := requests.length
  return .object
    ([("campaign_id", .string campaign.id),
      ("created_at", .string campaign.createdAt),
      ("kind", .string campaign.kind),
      ("total", .int total),
      ("status_counts", countsToValue counts)] ++ statusMembers counts ++
    [("confirmation_rate", percentage (countOf counts "CONFIRMED") (max total 1)),
      ("rejection_rate", percentage (countOf counts "REJECTED_FINAL") (max total 1)),
      ("avg_response_time_days", round1OrNull (average times)),
      ("total_reminders_sent", .int reminders),
      ("requests", .array (requests.map fun request =>
        requestMap request ((events.get request.id).getD [])))])

/-- A report of nothing. -/
def emptyReport (id : String) (now : DateTime) : Json :=
  let id := if id = "" then "none" else id
  .object
    [("generated_at", .string (iso now)),
      ("campaigns", .array []),
      ("total_campaigns", .int 0),
      ("total_requests", .int 0),
      ("status_breakdown", .object []),
      ("broker_leaderboard", .array []),
      ("jurisdiction_stats", .array []),
      ("timeline", .array []),
      ("historical_comparison", .object []),
      ("success_metrics", .object []),
      ("error", .string ("Campaign '" ++ id ++ "' not found or empty"))]

/-! ### Brokers and jurisdictions -/

/-- How many of some requests have an outcome. -/
structure Outcomes where
  total : ℤ
  confirmed : ℤ
  rejected : ℤ
  overdue : ℤ
  pending : ℤ
  deriving DecidableEq, Repr

def Outcomes.start : Outcomes := ⟨0, 0, 0, 0, 0⟩

/-- One more request. -/
def Outcomes.count (outcomes : Outcomes) (request : RequestRow) : Outcomes :=
  let outcomes := { outcomes with total := outcomes.total + 1 }
  if toUppercase request.currentStatus = "CONFIRMED" then
    { outcomes with confirmed := outcomes.confirmed + 1 }
  else if toUppercase request.currentStatus = "REJECTED_FINAL" then
    { outcomes with rejected := outcomes.rejected + 1 }
  else if toUppercase request.currentStatus = "OVERDUE" then
    { outcomes with overdue := outcomes.overdue + 1 }
  else { outcomes with pending := outcomes.pending + 1 }

/-- The numbers of a broker. -/
structure BrokerStat where
  brokerId : String
  outcomes : Outcomes
  times : List ℚ

/-- Count a request. -/
def BrokerStat.count (stat : BrokerStat) (request : RequestRow) : Except String BrokerStat := do
  let time ← responseTime request
  return { stat with
    outcomes := stat.outcomes.count request
    times := stat.times ++ time.toList }

/-- A request counted for its broker. -/
def countBroker (stats : List BrokerStat) (request : RequestRow) :
    Except String (List BrokerStat) :=
  match stats with
  | [] => (BrokerStat.count ⟨request.brokerId, .start, []⟩ request).map fun stat => [stat]
  | stat :: stats =>
      if stat.brokerId = request.brokerId then (stat.count request).map fun stat => stat :: stats
      else (countBroker stats request).map fun stats => stat :: stats

/-- Descending totals, then ascending keys. -/
def TotalGe (a b : ℤ × String) : Prop := b.1 < a.1 ∨ a.1 = b.1 ∧ a.2 ≤ b.2

instance : DecidableRel TotalGe := fun a b =>
  inferInstanceAs (Decidable (b.1 < a.1 ∨ a.1 = b.1 ∧ a.2 ≤ b.2))

/-- Brokers by their totals, the largest first. -/
def brokerLeaderboard (requests : List RequestRow) : Except String (List BrokerStat) :=
  (requests.foldlM countBroker []).map fun stats =>
    stats.insertionSort fun a b =>
      TotalGe (a.outcomes.total, a.brokerId) (b.outcomes.total, b.brokerId)

/-- A broker as it is shown. -/
def brokerMembers (stat : BrokerStat) : Map :=
  [("broker_id", .string stat.brokerId),
    ("total", .int stat.outcomes.total),
    ("confirmed", .int stat.outcomes.confirmed),
    ("rejected", .int stat.outcomes.rejected),
    ("overdue", .int stat.outcomes.overdue),
    ("pending", .int stat.outcomes.pending)]

/-- The brokers as they are shown. -/
def brokerLeaderboardValue (requests : List RequestRow) : Except String (List Json) :=
  (brokerLeaderboard requests).map fun stats => stats.map fun stat =>
    .object (brokerMembers stat ++
      [("success_rate", percentage stat.outcomes.confirmed (max stat.outcomes.total 1)),
        ("avg_response_time_days", round1OrNull (average stat.times))])

/-- The leaderboard without rates. -/
def brokerDashboard (requests : List RequestRow) : Except String (List Json) :=
  (brokerLeaderboard requests).map fun stats => stats.map fun stat => .object (brokerMembers stat)

/-- The jurisdiction in capitals. -/
def jurisdictionKey (request : RequestRow) : String :=
  let upper := toUppercase request.jurisdiction
  if upper = "" then "UNKNOWN" else upper

/-- A request counted for its jurisdiction. -/
def countJurisdiction (stats : List (String × Outcomes)) (request : RequestRow) :
    List (String × Outcomes) :=
  match stats with
  | [] => [(jurisdictionKey request, Outcomes.start.count request)]
  | stat :: stats =>
      if stat.1 = jurisdictionKey request then (stat.1, stat.2.count request) :: stats
      else stat :: countJurisdiction stats request

/-- Requests by jurisdiction. -/
def jurisdictionBreakdown (requests : List RequestRow) : List Json :=
  let stats := (requests.foldl countJurisdiction []).insertionSort fun a b =>
    TotalGe (a.2.total, a.1) (b.2.total, b.1)
  stats.map fun stat =>
    .object
      [("jurisdiction", .string stat.1),
        ("total", .int stat.2.total),
        ("confirmed", .int stat.2.confirmed),
        ("rejected", .int stat.2.rejected),
        ("overdue", .int stat.2.overdue),
        ("confirmation_rate", percentage stat.2.confirmed (max stat.2.total 1))]

/-! ### Figures -/

/-- The day of an event: ten octets of its timestamp. -/
def dayOf (event : EventRow) : Except String String :=
  if event.occurredAt.utf8ByteSize ≥ 10 then
    (cut 10 event.occurredAt.toList).map fun parts => String.ofList parts.1
  else .ok "unknown"

/-- Count an event of a day. -/
def countEvent (counts : BTreeMap String (BTreeMap String ℤ)) (event : EventRow) :
    Except String (BTreeMap String (BTreeMap String ℤ)) :=
  (dayOf event).map fun day =>
    counts.alter day fun perType => bump (perType.getD .empty) event.eventType

/-- The events of each day. -/
def buildTimeline (events : List EventRow) : Except String (List Json) :=
  (events.foldlM countEvent .empty).map fun counts => counts.entries.map fun entry =>
    .object
      [("date", .string entry.1),
        ("total_events", .int (entry.2.entries.map Prod.snd).sum),
        ("events", countsToValue entry.2)]

/-- A numeric member as a double. -/
def number (value : Json) (key : String) : Option ℚ :=
  ((value.member key).bind asF64).map rational

/-- The difference of a figure of two campaigns. -/
def change (latest previous : Json) (key : String) : Json :=
  match number latest key, number previous key with
  | some a, some b => goJsonNumber (round1 (nearest (a - b)))
  | _, _ => .null

/-- The two newest campaigns. -/
def historicalComparison (aggregates : List Json) : Json :=
  match aggregates with
  | latest :: previous :: _ =>
      .object
        [("latest_campaign", (latest.member "campaign_id").getD .null),
          ("previous_campaign", (previous.member "campaign_id").getD .null),
          ("requests_change", .int (toI64 ((number latest "total").getD 0) -
            toI64 ((number previous "total").getD 0))),
          ("confirmation_rate_change", change latest previous "confirmation_rate"),
          ("rejection_rate_change", change latest previous "rejection_rate"),
          ("avg_response_time_change", change latest previous "avg_response_time_days")]
  | _ => .object []

/-- The middle of sorted times. -/
def median (times : List ℚ) : Json :=
  let at_ (i : ℕ) : ℚ := times.getD i 0
  if times.length % 2 = 1 then goJsonNumber (at_ (times.length / 2))
  else goJsonNumber (nearest (nearest (at_ (times.length / 2 - 1) + at_ (times.length / 2)) / 2))

/-- The rates of the outcomes and the times to answer. -/
def successMetrics (requests : List RequestRow) : Except String Json := do
  if requests.isEmpty then return .object []
  else do
    let outcomes := requests.foldl Outcomes.count .start
    let times ← responseTimes requests
    let times := times.insertionSort (· ≤ ·)
    let total : ℤ := requests.length
    return .object
      [("total_requests", .int total),
        ("overall_confirmation_rate", percentage outcomes.confirmed total),
        ("overall_rejection_rate", percentage outcomes.rejected total),
        ("overdue_rate", percentage outcomes.overdue total),
        ("avg_response_time_days", round1OrNull (average times)),
        ("median_response_time_days", if times.isEmpty then .null else median times)]

/-! ### The report -/

/-- The campaigns of a report. -/
structure ReportOpts where
  campaignId : String
  allCampaigns : Bool
  deriving DecidableEq, Repr

/-- The aggregates of the campaigns. -/
def aggregate (build : Build) (campaigns : List CampaignRow) (requests : List RequestRow)
    (events : List EventRow) : Except String (List Json) :=
  let byCampaign := groupBy RequestRow.campaignId requests
  let byRequest := groupBy EventRow.requestId events
  campaigns.mapM fun campaign =>
    aggregateCampaign build campaign ((byCampaign.get campaign.id).getD []) byRequest

/-- The report on rows. -/
def reportValue (build : Build) (now : DateTime) (campaigns : List CampaignRow)
    (requests : List RequestRow) (events : List EventRow) : Except String Json := do
  let aggregates ← aggregate build campaigns requests events
  let leaderboard ← brokerLeaderboardValue requests
  let timeline ← buildTimeline events
  let metrics ← successMetrics requests
  return goMapOrder (.object
    [("generated_at", .string (iso now)),
      ("campaigns", .array aggregates),
      ("total_campaigns", .int aggregates.length),
      ("total_requests", .int requests.length),
      ("status_breakdown", countsToValue (countStatuses requests)),
      ("broker_leaderboard", .array leaderboard),
      ("jurisdiction_stats", .array (jurisdictionBreakdown requests)),
      ("timeline", .array timeline),
      ("historical_comparison", historicalComparison aggregates),
      ("success_metrics", metrics)])

/-- The report on the selected campaigns as they are stored. -/
def getReportData (build : Build) (opts : ReportOpts) (now : DateTime) :
    Db Store τ ReportError Json := do
  let campaigns ← Db.mapError (loadCampaigns opts.campaignId opts.allCampaigns) .database
  if campaigns.isEmpty then return emptyReport opts.campaignId now
  else do
    let requests ← Db.mapError (loadRequests (campaigns.map CampaignRow.id)) .database
    let events ← Db.mapError (loadEvents requests) .database
    orStop (reportValue build now campaigns requests events)

/-! ### The dashboard -/

/-- `ORDER BY occurred_at DESC, id DESC`. -/
def NewestGe (a b : ℤ × EventColumns) : Prop := ReplayLe b a

instance : DecidableRel NewestGe := fun a b => inferInstanceAs (Decidable (ReplayLe b a))

/-- The newest events with their brokers. -/
def recentEvents (limit : ℤ) : Db Store τ String (List Json) :=
  query fun _ db =>
    let joined := (db.events.rows.insertionSort NewestGe).filterMap fun row =>
      (db.requests.find row.2.requestId).map fun request => (row, request.brokerId)
    (paginate (some limit) none joined).map fun (row, brokerId) =>
      .object
        [("id", .int row.1),
          ("request_id", .int row.2.requestId),
          ("event_type", .string row.2.eventType),
          ("occurred_at", .string (pyTimestamp row.2.occurredAt)),
          ("source", .string row.2.source),
          ("broker_id", .string brokerId)]

/-- A campaign on the dashboard. -/
def dashboardCampaign (byCampaign : BTreeMap String (List RequestRow)) (campaign : CampaignRow) :
    Json :=
  let requests := (byCampaign.get campaign.id).getD []
  .object
    ([("id", .string campaign.id),
      ("created_at", .string campaign.createdAt),
      ("kind", .string campaign.kind),
      ("requests", .array (requests.map dashboardRequestMap)),
      ("total", .int requests.length)] ++ statusMembers (countStatuses requests))

/-- The dashboard as a value. -/
def dashboardValue (now : DateTime) (campaigns : List CampaignRow) (requests : List RequestRow)
    (events brokers : List Json) : Json :=
  let byCampaign := groupBy RequestRow.campaignId requests
  goMapOrder (.object
    ([("campaigns", .array (campaigns.map (dashboardCampaign byCampaign))),
      ("total_requests", .int requests.length)] ++ statusMembers (countStatuses requests) ++
    [("broker_status", .array brokers),
      ("recent_events", .array events),
      ("generated_at", .string (iso now))]))

/-- The data of the dashboard. -/
def getDashboardData (campaignId : String) (now : DateTime) : Db Store τ ReportError Json := do
  let (campaigns, requests) ← Db.mapError (loadScope campaignId) .database
  let events ← Db.mapError (recentEvents 50) .database
  let brokers ← orStop (brokerDashboard requests)
  return dashboardValue now campaigns requests events brokers

end EraseMe.Reporting
