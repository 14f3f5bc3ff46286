import EraseMe.Storage.Projection

/-!
# `deadlines`: the tick

A tick reads the due requests, decides for each by its status what to do next (`reminder`,
`deadline`, `dpa`, `rescan`), and `applyTickActions` appends the event of each decision and
rebuilds the states.  Each rule is for one status, so a request gets at most one action a tick.
-/

namespace EraseMe.Deadlines

open Chrono Json Sqlite Storage

variable {τ : Type}

/-- Days between reminders. -/
def reminderDays : ℤ := 7
/-- Days from deadline to escalation. -/
def dpaEscalationDays : ℤ := 14
/-- Days until a new scan. -/
def rescanDays : ℤ := 90

/-- One scheduler decision. -/
structure TickAction where
  requestId : ℤ
  brokerId : String
  campaignId : String
  currentStatus : String
  actionType : String
  eventType : String
  description : String
  payload : Map
  dryRun : Bool

/-! ### Instants -/

/-- A timestamp column; an empty one is absent. -/
def parsed (value : String) : Option DateTime :=
  if value = "" then none else (Timeutil.parseTimestamp value).toOption

/-- Whole days from `then_` to `now`, toward zero. -/
def daysBetween (now then_ : DateTime) : ℤ := (numHours (now.signedDurationSince then_)).tdiv 24

/-- At least two digits. -/
def pad2 (n : ℤ) : String :=
  if 0 ≤ n ∧ n < 10 then "0" ++ toString n else toString n

/-- A duration as days and a wall clock. -/
def pythonTimedelta (duration : ℤ) : String :=
  let seconds := numSeconds duration
  let days := seconds.tdiv 86400
  let remainder := seconds.tmod 86400
  let clock := toString (remainder.tdiv 3600) ++ ":" ++ pad2 ((remainder.tmod 3600).tdiv 60) ++
    ":" ++ pad2 (remainder.tmod 60)
  if days > 0 then
    toString days ++ " " ++ (if days = 1 then "day" else "days") ++ ", " ++ clock
  else clock

/-! ### The rules -/

/-- An action on a request. -/
def actionOn (request : TickCandidate) (status actionType eventType description : String)
    (payload : Map) (dryRun : Bool) : TickAction where
  requestId := request.id
  brokerId := request.brokerId
  campaignId := request.campaignId
  currentStatus := status
  actionType := actionType
  eventType := eventType
  description := description
  payload := payload
  dryRun := dryRun

/-- The days the law gives. -/
def jurisdictionDays (jurisdiction : String) : ℤ :=
  if jurisdiction = "GDPR" ∨ jurisdiction = "LGPD" ∨ jurisdiction = "PIPEDA" then 30
  else if jurisdiction = "CCPA" ∨ jurisdiction = "CPRA" then 45
  else 30

/-- The days after which the next reminder is due.  The count is shifted as an unsigned number,
and the product wraps. -/
def reminderThreshold (remindersSent : ℤ) : ℤ :=
  let shift := remindersSent % 18446744073709551616
  let shifted := if shift ≥ 64 then 0 else wrapI64 (2 ^ shift.toNat)
  wrapI64 (reminderDays * shifted)

/-- Remind a broker that does not answer; the waits double. -/
def reminder (request : TickCandidate) (now : DateTime) (dryRun : Bool) : Option TickAction := do
  let sent ← parsed request.sentAt
  let days := daysBetween now sent
  if days < reminderDays then none
  if days < reminderThreshold request.remindersSent then none
  let count := wrapI64 (request.remindersSent + 1)
  some (actionOn request "AWAITING_ACK" "send_reminder" "REMINDER_SENT"
    ("Send reminder #" ++ toString count ++ " (" ++ toString days ++ "d since sent)")
    [("count", .int count), ("days_since_sent", .int days)] dryRun)

/-- The message of a sum of instants that leaves the calendar. -/
def overflowed : String := "DateTime + TimeDelta overflowed"

/-- The deadline of a request: the projected one, or the one its jurisdiction gives.  The program
stops where that sum leaves the calendar. -/
def effectiveDeadline (request : TickCandidate) : Except String (Option DateTime) :=
  match parsed request.deadlineAt with
  | some deadline => .ok (some deadline)
  | none =>
      match parsed request.sentAt with
      | none => .ok none
      | some sent =>
          match sent.checkedAddSigned (durationDays (jurisdictionDays request.jurisdiction)) with
          | some deadline => .ok (some deadline)
          | none => .error overflowed

/-- Note that the deadline has passed. -/
def deadline (request : TickCandidate) (now : DateTime) (dryRun : Bool) :
    Except String (Option TickAction) := do
  let days := jurisdictionDays request.jurisdiction
  let some deadline ← effectiveDeadline request | .ok none
  if now < deadline then .ok none
  else
    let detail := match parsed request.deadlineAt with
      | some _ => ", passed " ++ pythonTimedelta (now.signedDurationSince deadline)
      | none => " from sent"
    .ok (some (actionOn request "AWAITING_RESPONSE" "mark_overdue" "DEADLINE_REACHED"
      ("Deadline reached (" ++ toString days ++ "d" ++ detail ++ ")")
      [("deadline_days", .int days), ("deadline_at", .string (Timeutil.formatIso deadline))]
      dryRun))

/-- Escalate to the authority. -/
def dpa (request : TickCandidate) (now : DateTime) (dryRun : Bool) : Option TickAction := do
  let deadline ← parsed request.deadlineAt
  if request.escalationLevel ≥ 2 then none
  let days := daysBetween now deadline
  if days < dpaEscalationDays then none
  some (actionOn request "OVERDUE" "draft_dpa_complaint" "DPA_COMPLAINT_DRAFTED"
    ("DPA complaint ready (" ++ toString days ++ "d since deadline)")
    [("days_since_deadline", .int days)] dryRun)

/-- Scan again after the resolution. -/
def rescan (request : TickCandidate) (now : DateTime) (dryRun : Bool) : Option TickAction := do
  let resolved ← parsed request.resolvedAt
  let days := daysBetween now resolved
  if days < rescanDays then none
  some (actionOn request "CONFIRMED" "trigger_rescan" "RE_SCAN_TRIGGERED"
    ("Re-scan due (" ++ toString days ++ "d since resolution)")
    [("days_since_resolved", .int days)] dryRun)

/-- Evaluate one projected request; the error is the message the program stops with. -/
def actionsForCandidate (request : TickCandidate) (now : DateTime) (dryRun : Bool) :
    Except String (List TickAction) :=
  let status := if request.currentStatus = "" then "PLANNED" else request.currentStatus
  if status = "AWAITING_ACK" then .ok (reminder request now dryRun).toList
  else if status = "AWAITING_RESPONSE" then (deadline request now dryRun).map Option.toList
  else if status = "OVERDUE" then .ok (dpa request now dryRun).toList
  else if status = "CONFIRMED" then .ok (rescan request now dryRun).toList
  else .ok []

/-! ### Ticks -/

/-- How to run a tick. -/
structure RunOpts where
  dryRun : Bool := false
  batchSize : ℤ := 0
  deriving DecidableEq, Repr

/-- Why a tick returns nothing: a failed query, or the sum that stops the program. -/
inductive DeadlinesError
  | database (message : String)
  | stopped (message : String)
  deriving DecidableEq, Repr

/-- The actions of several candidates, in turn. -/
def actionsForCandidates (now : DateTime) (dryRun : Bool) :
    List TickCandidate → Except String (List TickAction)
  | [] => .ok []
  | request :: requests => do
      let actions ← actionsForCandidate request now dryRun
      let rest ← actionsForCandidates now dryRun requests
      return actions ++ rest

/-- Evaluate the due requests. -/
def runTick (opts : RunOpts) (now : DateTime) : Db Store τ DeadlinesError (List TickAction) := do
  let candidates ← Db.mapError (fetchTickCandidates (Timeutil.formatIso now) opts.batchSize)
    .database
  match actionsForCandidates now opts.dryRun candidates with
  | .ok actions => return actions
  | .error message => fail (.stopped message)

/-- One applied or skipped action. -/
structure ApplyResult where
  requestId : ℤ
  action : String
  eventType : String
  description : String
  executed : Bool
  dryRun : Bool
  error : String
  deriving DecidableEq, Repr

/-- What became of an action. -/
def TickAction.result (action : TickAction) (executed dryRun : Bool) (error : String) :
    ApplyResult where
  requestId := action.requestId
  action := action.actionType
  eventType := action.eventType
  description := action.description
  executed := executed
  dryRun := dryRun
  error := error

/-- Append the event of one action, or record why not. -/
def applyTickAction (arch : TargetArch) (now : DateTime) (action : TickAction) :
    Db Store τ DeadlinesError ApplyResult :=
  if action.dryRun then pure (action.result false true "")
  else do
    let applied ← attempt (appendAndProject arch action.requestId (.fromWire action.eventType)
      action.payload .scheduler now)
    match applied with
    | .ok _ => return action.result true false ""
    | .error e => return action.result false false e.display

/-- Apply the actions and rebuild every state; the outcome of the rebuild is dropped. -/
def applyTickActions (arch : TargetArch) (actions : List TickAction) (now : DateTime) :
    Db Store τ DeadlinesError (List ApplyResult) :=
  if actions.isEmpty then pure []
  else do
    let results ← forEach (applyTickAction arch now) actions
    let _ ← attempt (rebuildAllStates arch 500)
    return results

end EraseMe.Deadlines
