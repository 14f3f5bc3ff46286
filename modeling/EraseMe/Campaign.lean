import EraseMe.Manualtasks
import EraseMe.Registry

/-!
# `campaign`: planning and execution

`planCampaign` creates one removal request for each selected broker and appends its `PLANNED`
event.  `executeCampaign` takes a batch of the requests whose state is `PLANNED` and runs
`executeRequest` on each; a failure is captured in the results.

An e-mail request is addressed from the payload of the last event of its log.  The sender is given
by the caller and may answer each mail by the ones before it; the mails are the trace of the
program.  A web form is never submitted: a dry run previews it, and any other run asks for a manual
task.
-/

namespace EraseMe.Campaign

open Chrono Identity Json Registry Sqlite Storage

/-! ### Planning -/

/-- Empty texts ask for nothing; a limit up to zero is none. -/
structure PlanOpts where
  campaignId : String
  jurisdiction : String := ""
  law : String := ""
  priority : String := ""
  category : String := ""
  status : String := ""
  includeInactive : Bool := false
  includeDisabled : Bool := false
  maxBrokers : ℤ := 0
  notes : String := ""
  deriving DecidableEq, Repr

/-- One planned removal request. -/
structure PlanRequest where
  requestId : ℤ
  brokerId : String
  brokerName : String
  channel : String
  template : String
  deriving DecidableEq, Repr

/-- What a plan did. -/
structure PlanResult where
  campaignId : String
  totalBrokers : ℤ
  matched : ℤ
  planned : ℤ
  requests : List PlanRequest
  deriving DecidableEq, Repr

/-- Why a plan fails. -/
inductive PlanError
  | database (message : String)
  | projection (error : ProjectionError)
  deriving DecidableEq, Repr

/-- The opt-out channel planning selected for a broker. -/
inductive SelectedChannel
  | email (endpoint : String) (template : Option Template) (locale : String)
      (expectedResponseDays : ℤ)
  | webForm (url : String)
  deriving DecidableEq, Repr

namespace SelectedChannel

/-- The name of the channel. -/
def kind : SelectedChannel → String
  | email .. => "email"
  | webForm _ => "web_form"

/-- Where a request goes. -/
def endpoint : SelectedChannel → String
  | email endpoint .. => endpoint
  | webForm url => url

/-- The days an answer may take. -/
def expectedResponseDays : SelectedChannel → ℤ
  | email _ _ _ days => days
  | webForm _ => 30

/-- The language of the template. -/
def locale : SelectedChannel → String
  | email _ _ locale _ => locale
  | webForm _ => ""

end SelectedChannel

/-- The first opt-out channel of a broker. -/
def selectChannel (broker : Broker) : Option SelectedChannel :=
  match broker.optOut with
  | [] => none
  | .email endpoint options :: _ =>
      let days : ℤ := match options.expectedResponseDays with
        | some days => if days.val > 0 then days.val else 30
        | none => 30
      some (.email endpoint options.template (options.locale.getD "") days)
  | .webForm url _ _ :: _ => some (.webForm url)

/-- The name of a template. -/
def templateName : Template → String
  | .ccpaDeletion => "ccpa-deletion"
  | .gdprArt17 => "gdpr-art17"

/-- `<template>[.<locale>].md.j2`, else empty. -/
def resolveTemplate : SelectedChannel → String
  | .email _ (some template) locale _ =>
      if locale = "" then templateName template ++ ".md.j2"
      else templateName template ++ "." ++ locale ++ ".md.j2"
  | _ => ""

/-- The requested jurisdiction when the broker has it, else the first of the broker. -/
def resolveJurisdiction (broker : Broker) (requested : String) : String :=
  let names := broker.jurisdictions.map Jurisdiction.registryName
  if requested ≠ "" ∧ requested ∈ names then requested else names.head?.getD "UNKNOWN"

/-- The payload of the `PLANNED` event. -/
def plannedPayload (broker : Broker) (channel : SelectedChannel) : Map :=
  [("broker_name", .string broker.name), ("broker_website", .string broker.website),
    ("channel", .string channel.kind), ("endpoint", .string channel.endpoint),
    ("template", .string (resolveTemplate channel)), ("locale", .string channel.locale),
    ("expected_response_days", .int channel.expectedResponseDays)]

/-- A text of the options as a filter. -/
def optional (value : String) : Option String := if value = "" then none else some value

/-- The filter for brokers. -/
def PlanOpts.filter (opts : PlanOpts) : BrokerFilter where
  jurisdiction := optional opts.jurisdiction
  law := optional opts.law
  priority := optional opts.priority
  category := optional opts.category
  includeDisabled := opts.includeDisabled
  status := some (if opts.status = "" then "active" else opts.status)
  includeInactive := opts.includeInactive

/-- The brokers a plan is for, each with its channel, before the limit. -/
def matchedBrokers (brokers : List Broker) (opts : PlanOpts) : List (Broker × SelectedChannel) :=
  (filterBrokers brokers opts.filter).filterMap fun broker =>
    (selectChannel broker).map fun channel => (broker, channel)

/-- The brokers a plan is for. -/
def selectedBrokers (brokers : List Broker) (opts : PlanOpts) : List (Broker × SelectedChannel) :=
  let selected := matchedBrokers brokers opts
  if opts.maxBrokers > 0 ∧ (selected.length : ℤ) > opts.maxBrokers then
    selected.take opts.maxBrokers.toNat
  else selected

section

variable {τ : Type}

/-- The request of one broker and its `PLANNED` event. -/
def planBroker (env : Env) (identityHash : String) (opts : PlanOpts) (now : DateTime)
    (selected : Broker × SelectedChannel) : Db Store τ PlanError PlanRequest := do
  let (broker, channel) := selected
  let templateId := resolveTemplate channel
  let requestId ← Db.mapError
    (createRemovalRequest broker.id channel.kind opts.campaignId
      (resolveJurisdiction broker opts.jurisdiction) templateId identityHash)
    .database
  let _ ← Db.mapError
    (appendAndProject env.arch requestId .planned (plannedPayload broker channel) .system now)
    .projection
  return ⟨requestId, broker.id, broker.name, channel.kind, templateId⟩

/-- Plan one request for each selected broker; an existing campaign is added to. -/
def planCampaign (env : Env) (brokers : List Broker) (identityHash : String) (opts : PlanOpts)
    (now : DateTime) : Db Store τ PlanError PlanResult := do
  let _ ← Db.mapError (createCampaign opts.campaignId "initial" opts.notes) .database
  let requests ← forEach (planBroker env identityHash opts now) (selectedBrokers brokers opts)
  return {
    campaignId := opts.campaignId
    totalBrokers := (filterBrokers brokers opts.filter).length
    matched := (matchedBrokers brokers opts).length
    planned := requests.length
    requests := requests }

end

/-! ### The e-mail path -/

/-- A mail handed to the sender, and the request it is for. -/
structure Mail where
  requestId : ℤ
  endpoint : String
  subject : String
  body : String
  deriving DecidableEq, Repr

/-- A sender answers an endpoint, a subject and a body, given the mails before. -/
abbrev EmailSender := List Mail → String → String → String → Except String Map

/-- The options of an execution. -/
structure ExecuteOpts where
  account : String := ""
  dryRun : Bool := false
  emailSender : Option EmailSender := none
  brokers : List Broker := []

/-- Why an execution fails. -/
inductive ExecuteError
  | requestNotFound (id : ℤ)
  | identityProfile (message : String)
  | identityProfileNotFound
  | emailSenderRequired
  | emailSend (requestId : ℤ) (message : String)
  | database (message : String)
  | projection (error : ProjectionError)
  deriving DecidableEq, Repr

/-- The text of the error. -/
def ExecuteError.display : ExecuteError → String
  | requestNotFound id => "campaign: removal request not found: " ++ toString id
  | identityProfile message => message
  | identityProfileNotFound =>
      "campaign: identity profile not found — run 'symeraseme init-profile' first"
  | emailSenderRequired => "campaign: email_sender is required for email-based requests"
  | emailSend requestId message => "campaign: request " ++ toString requestId ++ ": " ++ message
  | database message => message
  | projection error => error.display

/-- Whether the profile has no value for a field; an unknown field has none. -/
def profileFieldEmpty (profile : Profile) (field : String) : Bool :=
  if field = "full_name" then profile.fullName = ""
  else if field = "email_addresses" then profile.emailAddresses = []
  else if field = "address" ∨ field = "state" then profile.addresses = []
  else if field = "date_of_birth" then profile.dateOfBirth.all fun value => value = ""
  else if field = "name_variants" then profile.nameVariants = []
  else if field = "phone_numbers" then profile.phoneNumbers = []
  else if field = "jurisdictions" then profile.jurisdictions = []
  else true

/-- The fields the profile lacks. -/
def missingFields (profile : Profile) (fields : List String) : List String :=
  fields.filter (profileFieldEmpty profile)

/-- The recipient in a payload. -/
def endpointOf (payload : Map) : String := ((payload.get "endpoint").bind asStr).getD ""

/-- The identity fields a payload asks for. -/
def requiredFields (payload : Map) : List String :=
  match (payload.get "required_fields").bind asArray with
  | some fields => fields.filterMap asStr
  | none => ["full_name", "email_addresses"]

/-- The response time in a payload, in days. -/
def expectedDaysOf (payload : Map) : ℤ :=
  (((payload.get "expected_response_days").bind asI64).filter (· > 0)).getD 30

/-- The message about them. -/
def missingMessage (missing : List String) : String :=
  "Missing required identity fields: " ++ ", ".intercalate missing ++
    ". Run 'symeraseme init-profile' to update your profile."

/-- A text in place of the template. -/
def defaultRenderer (templateId : String) (profile : Profile) (brokerName : String) : String :=
  "[template " ++ templateId ++ " — " ++ brokerName ++ " / " ++ profile.fullName ++ "]"

/-- The mail of a request. -/
def mailOf (request : RemovalRequest) (payload : Map) (profile : Profile) : Mail where
  requestId := request.id
  endpoint := endpointOf payload
  subject := "Data Deletion Request — " ++ request.brokerId
  body := defaultRenderer request.templateId profile request.brokerId

/-- The payload of the `SENT` event of a mail. -/
def sentPayload (env : Env) (request : RemovalRequest) (payload : Map) (account : String)
    (profile : Profile) (sendResult : Map) : Map :=
  [("to", .string (endpointOf payload)), ("template", .string request.templateId),
    ("account", .string account), ("expected_response_days", .int (expectedDaysOf payload)),
    ("message_id", (sendResult.get "message_id").getD .null),
    ("identity_snapshot_hash", .string (env.hashProfile profile))]

/-- The payload of the `SEND_FAILED` event of a mail. -/
def refusedPayload (payload : Map) (message : String) : Map :=
  [("error", .string message), ("to", .string (endpointOf payload))]

/-- Hand a mail to the sender and record its answer. -/
def sendMail (env : Env) (request : RemovalRequest) (payload : Map) (account : String)
    (profile : Profile) (sender : EmailSender) (now : DateTime) :
    Db Store Mail ExecuteError Map := do
  let mail := mailOf request payload profile
  let answer ← perform fun earlier =>
    (sender earlier mail.endpoint mail.subject mail.body, mail)
  match answer with
  | .error message => do
      let _ ← Db.mapError
        (appendAndProject env.arch request.id .sendFailed (refusedPayload payload message) .system
          now)
        .projection
      fail (.emailSend request.id message)
  | .ok sendResult => do
      let _ ← Db.mapError
        (appendAndProject env.arch request.id .sent
          (sentPayload env request payload account profile sendResult) .system now)
        .projection
      return [("success", .bool true), ("request_id", .int request.id),
        ("result", .object sendResult)]

/-- Mail a request of a complete profile, or preview the mail. -/
def executeEmailRequest (env : Env) (request : RemovalRequest) (payload : Map)
    (opts : ExecuteOpts) (profile : ProfileSource) (now : DateTime) :
    Db Store Mail ExecuteError Map :=
  match profile with
  | .error message => fail (.identityProfile message)
  | .ok none => fail .identityProfileNotFound
  | .ok (some profile) =>
      let missing := missingFields profile (requiredFields payload)
      if missing ≠ [] then fail (.identityProfile (missingMessage missing))
      else if opts.dryRun then
        let mail := mailOf request payload profile
        pure [("success", .bool true), ("dry_run", .bool true), ("request_id", .int request.id),
          ("to", .string mail.endpoint), ("subject", .string mail.subject),
          ("body", .string mail.body)]
      else match opts.emailSender with
        | none => fail .emailSenderRequired
        | some sender => sendMail env request payload opts.account profile sender now

/-! ### The web-form path -/

/-- The first active web form of a broker. -/
def activeWebForm (broker : Broker) : Option (String × FormSpec) :=
  broker.optOut.findSome? fun
    | .webForm url formSpec options => if options.disabled.getD false then none
        else some (url, formSpec)
    | .email .. => none

/-- The result of a form that cannot be looked up. -/
def invalidSpec (message : String) (dryRun : Bool) : Map :=
  [("success", .bool false), ("code", .string "invalid_spec"), ("error", .string message),
    ("reason", .string "generic_error"), ("dry_run", .bool dryRun)]

/-- The preview of a form. -/
def formPreview (broker : Broker) (url : String) (formSpec : FormSpec) : Map :=
  [("success", .bool true), ("dry_run", .bool true), ("broker_id", .string broker.id),
    ("broker_name", .string broker.name), ("url", .string url),
    ("steps", .int formSpec.steps.length)]

/-- The request for a manual task instead of a submission. -/
def manualAction (broker : Broker) (url : String) : Map :=
  [("success", .bool false), ("status", .string "manual_action_required"),
    ("reason", .string "dynamic_form"), ("broker_id", .string broker.id),
    ("broker_name", .string broker.name), ("url", .string url), ("dry_run", .bool false)]

/-- Look up the form of a broker: a dry run previews it. -/
def webFormPreview (brokers : List Broker) (brokerId : String) (dryRun : Bool) : Except Map Map :=
  match brokers.find? fun broker => broker.id = brokerId with
  | none => .error (invalidSpec ("campaign: broker " ++ Text.debugStr brokerId ++
      " not found") dryRun)
  | some broker =>
      match activeWebForm broker with
      | none => .error (invalidSpec ("campaign: broker " ++ Text.debugStr brokerId ++
          " has no active web form channel") dryRun)
      | some (url, formSpec) =>
          .ok (if dryRun then formPreview broker url formSpec else manualAction broker url)

/-- A text without the values of the profile, cut to a number of characters. -/
def boundedRedacted (env : Env) (value : Json) (profile : Option Profile) (limit : ℕ) : String :=
  let redacted := Manualtasks.redactIdentityValues env ((asStr value).getD "") profile
  String.ofList (redacted.toList.take limit)

/-- The member of a result as it is handed on, if it is. -/
def sanitizeField (env : Env) (profile : Option Profile) (key : String) (value : Json) :
    Option Json :=
  if key ∈ ["success", "dry_run"] then (asBool value).map .bool
  else if key ∈ ["task_id", "step_index", "total_steps", "duration_ms", "skipped_fields"] then
    some value
  else if key ∈ ["code", "reason", "status", "broker_id", "broker_name", "step",
      "failed_field"] then
    some (.string (boundedRedacted env value profile 200))
  else if key ∈ ["instructions", "error", "hint"] then
    some (.string (boundedRedacted env value profile 500))
  else if key ∈ ["url", "final_url"] then
    some (.string (boundedRedacted env value profile 2048))
  else none

/-- The result without what may not be kept. -/
def sanitizeWebFormResult (env : Env) (raw : Map) (profile : Option Profile) : Map :=
  raw.foldl (fun result member =>
    match sanitizeField env profile member.1 member.2 with
    | some value => result.insert member.1 value
    | none => result) []

/-- The reason of a manual task. -/
def reasonForCode (value : Option Json) : String :=
  let code := (value.bind asStr).getD ""
  if code = "blocked_captcha" then "captcha_failed"
  else if code = "navigation_timeout" then "timeout"
  else if code = "field_not_found" then "unknown_field"
  else if code = "confirmation_failed" then "assertion_failed"
  else "generic_error"

/-- A member of a map; an absent one is null. -/
def field (map : Map) (key : String) : Json := (map.get key).getD .null

/-- The payload of the `SENT` event of a web form. -/
def formSentPayload (brokerName identityHash : String) (result : Map) : Map :=
  [("broker_name", .string brokerName), ("form_url", field result "url"),
    ("expected_response_days", .int 30), ("identity_snapshot_hash", .string identityHash),
    ("formflow_code", field result "code"), ("evidence", field result "evidence")]

/-- Why a form was not submitted. -/
def formReason (result : Map) : String :=
  match (result.get "reason").bind asStr with
  | some reason => if reason ≠ "" then reason else reasonForCode (result.get "code")
  | none => reasonForCode (result.get "code")

/-- The payload of the `SEND_FAILED` event of a web form. -/
def formFailedPayload (brokerName : String) (result : Map) (taskId : Json) : Map :=
  [("error", field result "error"), ("broker_name", .string brokerName),
    ("formflow_code", field result "code"), ("reason", .string (formReason result)),
    ("evidence", field result "evidence"),
    ("form_url", match result.get "final_url" with
      | some url => if isNull url then field result "url" else url
      | none => field result "url"),
    ("task_id", taskId)]

/-- The manual task of a form that was not submitted. -/
def formTask (requestId : ℤ) (brokerName : String) (raw result : Map) :
    Manualtasks.CreateOpts where
  requestId := some requestId
  brokerId := brokerName
  brokerName := brokerName
  formUrl := match (result.get "url").bind asStr with
    | some url => if url ≠ "" then url else ((result.get "final_url").bind asStr).getD ""
    | none => ((result.get "final_url").bind asStr).getD ""
  reason := formReason result
  errorMessage := ((raw.get "error").bind asStr).getD ""

/-- The outcome of a web-form request. -/
def formOutcome (requestId : ℤ) (result : Map) : Map :=
  result.foldl (fun out member => out.insert member.1 member.2)
    [("success", field result "success"), ("request_id", .int requestId)]

/-- The answer of the form adapter, before it is sanitised. -/
def webFormRaw (brokers : List Broker) (brokerId : String) (dryRun : Bool) : Map :=
  match webFormPreview brokers brokerId dryRun with
  | .ok raw => raw
  | .error raw => raw

/-- Execute a request by form. -/
def executeWebFormRequest (env : Env) (requestId : ℤ) (brokerName : String) (opts : ExecuteOpts)
    (profile : ProfileSource) (now : DateTime) : Db Store Mail ExecuteError Map :=
  match profile with
  | .error message => fail (.identityProfile message)
  | .ok profile => do
      let identityHash := (profile.map env.hashProfile).getD ""
      let raw := webFormRaw opts.brokers brokerName opts.dryRun
      let result := sanitizeWebFormResult env raw profile
      if ((result.get "success").bind asBool).getD false then do
        let _ ← Db.mapError
          (appendAndProject env.arch requestId .sent
            (formSentPayload brokerName identityHash result) .system now)
          .projection
        return formOutcome requestId result
      else do
        let (taskId, recorded) ←
          if (result.get "task_id").all isNull then do
            let task ← Db.mapError
              (Manualtasks.create env (formTask requestId brokerName raw result) profile now)
              .database
            pure (Json.int task.id, result.insert "task_id" (.int task.id))
          else pure (field result "task_id", result)
        let _ ← Db.mapError
          (appendAndProject env.arch requestId .sendFailed
            (formFailedPayload brokerName result taskId) .system now)
          .projection
        return formOutcome requestId recorded

/-! ### Execution -/

/-- The channel of a request; a request without one is an e-mail request. -/
def channelOf (request : RemovalRequest) : String :=
  if request.channel = "" then "email" else request.channel

/-- Run one request by its channel. -/
def executeRequest (env : Env) (requestId : ℤ) (opts : ExecuteOpts) (profile : ProfileSource)
    (now : DateTime) : Db Store Mail ExecuteError Map := do
  let request ← Db.mapError (getRemovalRequest requestId) .database
  match request with
  | none => fail (.requestNotFound requestId)
  | some request =>
      if channelOf request = "web_form" then
        executeWebFormRequest env requestId request.brokerId opts profile now
      else do
        let events ← Db.mapError (getEvents requestId 0) .database
        let payload := (events.getLast?.map EventRecord.payload).getD []
        executeEmailRequest env request payload opts profile now

/-- The size of a batch. -/
def batchLimit : ℤ := 10

/-- The size of a batch: at most the limit, and five when none is given. -/
def clampBatch (batchSize : ℤ) : ℤ :=
  if batchSize > batchLimit then batchLimit else if batchSize ≤ 0 then 5 else batchSize

/-- The requests of a batch. -/
def batchOptions (campaignId : String) (batchSize : ℤ) : ListRemovalRequestsOptions where
  campaignId := some campaignId
  status := some "PLANNED"
  limit := some (clampBatch batchSize)

/-- The result of one request of a batch; an error is captured. -/
def captured (requestId : ℤ) : Except ExecuteError Map → Map
  | .ok result => result
  | .error error => [("success", .bool false), ("error", .string error.display),
      ("request_id", .int requestId)]

/-- Run a batch of the planned requests of a campaign. -/
def executeCampaign (env : Env) (campaignId : String) (opts : ExecuteOpts)
    (profile : ProfileSource) (batchSize : ℤ) (now : DateTime) :
    Db Store Mail ExecuteError Map := do
  let totalPlanned ← Db.mapError (countRemovalRequests (some campaignId) (some "PLANNED")) .database
  let batch ← Db.mapError (listRemovalRequests (batchOptions campaignId batchSize)) .database
  let results ← forEach (fun (request : RemovalRequestRow) => do
      let outcome ← attempt (executeRequest env request.id opts profile now)
      return captured request.id outcome) batch
  let out : Map := [("campaign_id", .string campaignId), ("total_planned", .int totalPlanned),
    ("batch_size", .int batch.length), ("results", .array (results.map .object))]
  return match goMapOrder (.object out) with
    | .object ordered => ordered
    | _ => out

end EraseMe.Campaign
