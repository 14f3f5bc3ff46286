import EraseMe.Identity.Profile
import EraseMe.Storage.Append

/-!
# `manualtasks`: the queue of manual tasks

`create` records a task for a form that cannot be filled automatically, together with the
`HUMAN_ACTION_REQUIRED` event of its request, in one transaction.  While a pending task for the
same request, broker, form and reason exists, `create` returns that one and writes nothing.

The artifact directory comes from the environment; without it `create` fails before it writes.
The patterns that redact texts without a profile are those of the regular-expression library, and
the snapshot files are the file system's (`Env`).
-/

namespace EraseMe

open Identity Storage

/-- What the program takes from outside: the processor, the digest of a profile, the e-mail and
phone patterns, the environment variables and the file system. -/
structure Env where
  arch : TargetArch
  hashProfile : Profile → String
  redactPatterns : String → String
  dataDir : Option String
  home : Option String
  ensureTasksDir : String → Except String Unit
  writePrivate : String → String → Bool

namespace Manualtasks

open Chrono Json Sqlite

variable {τ : Type}

/-- The fallback reasons, in stable order. -/
def fallbackReasons : List String :=
  ["unknown_captcha", "captcha_failed", "timeout", "login_required", "multi_step_exceeded",
    "dynamic_form", "unknown_field", "assertion_failed", "generic_error"]

/-- A queue record. -/
structure ManualTask where
  id : ℤ
  requestId : Option ℤ
  brokerId : String
  brokerName : String
  formUrl : String
  reason : String
  instructions : String
  screenshotPath : String
  htmlSnapshotPath : String
  formFieldsJson : String
  status : String
  createdAt : String
  completedAt : Option String
  notes : String
  deriving DecidableEq, Repr

/-- The captured state a task is made from; the fields are in the order of their names. -/
structure CreateOpts where
  requestId : Option ℤ := none
  brokerId : String := ""
  brokerName : String := ""
  formUrl : String := ""
  reason : String := ""
  screenshotPath : String := ""
  htmlSnapshot : String := ""
  formFields : List (String × String) := []
  stepIndex : ℤ := 0
  totalSteps : ℤ := 0
  errorMessage : String := ""
  extraInstructions : String := ""
  deriving DecidableEq, Repr

/-! ### Redaction -/

/-- Replace a value that is known. -/
def replaceNonEmpty (value sensitive marker : String) : String :=
  if sensitive = "" then value else Text.replace value sensitive marker

/-- Replace each of the values in turn. -/
def replaceEach (text : String) (values : List String) (marker : String) : String :=
  values.foldl (fun text value => replaceNonEmpty text value marker) text

/-- Replace an address. -/
def redactAddress (text : String) (address : ProfileAddress) : String :=
  let text := replaceNonEmpty text address.street "[REDACTED-STREET]"
  let text := replaceNonEmpty text address.city "[REDACTED-CITY]"
  let text := replaceNonEmpty text address.postalCode "[REDACTED-POSTAL]"
  replaceEach text address.state.toList "[REDACTED-STATE]"

/-- Remove the values of the profile; without one, what looks like an e-mail or a phone number. -/
def redactIdentityValues (env : Env) (html : String) : Option Profile → String
  | none => env.redactPatterns html
  | some profile =>
      let text := replaceEach html profile.emailAddresses "[REDACTED-EMAIL]"
      let text := replaceEach text profile.phoneNumbers "[REDACTED-PHONE]"
      let text := replaceNonEmpty text profile.fullName "[REDACTED-NAME]"
      let text := replaceEach text profile.nameVariants "[REDACTED-NAME]"
      let text := replaceEach text profile.dateOfBirth.toList "[REDACTED-DOB]"
      profile.addresses.foldl redactAddress text

/-- Redact each field. -/
def redactFields (env : Env) (fields : List (String × String)) (profile : Option Profile) :
    List (String × String) :=
  fields.map fun (key, value) => (key, redactIdentityValues env value profile)

/-! ### Texts -/

/-- A character inside a JSON string. -/
def jsonChar (c : Char) : List Char :=
  if c = '"' then ['\\', '"']
  else if c = '\\' then ['\\', '\\']
  else if c = '\n' then ['\\', 'n']
  else if c = '\r' then ['\\', 'r']
  else if c = '\t' then ['\\', 't']
  else if c.toNat = 8 then ['\\', 'b']
  else if c.toNat = 12 then ['\\', 'f']
  else if c.toNat < 32 then
    ['\\', 'u', '0', '0', Text.hexDigit (c.toNat / 16), Text.hexDigit (c.toNat % 16)]
  else [c]

/-- A text in quotes. -/
def jsonString (s : String) : List Char := '"' :: s.toList.flatMap jsonChar ++ ['"']

/-- `serde_json::to_string` of a map of texts. -/
def jsonObject (fields : List (String × String)) : String :=
  let members := fields.map fun (key, value) => jsonString key ++ ':' :: jsonString value
  String.ofList ('\x7b' :: List.intercalate [','] members ++ ['\x7d'])

/-- Instructions for a reason outside the list. -/
def genericInstructions (brokerName : String) : String :=
  "Please complete the opt-out process for " ++ brokerName ++
    " manually by visiting the URL below."

/-- What to do, by reason. -/
def instructionsForReason (reason brokerName : String) : String :=
  if reason ∉ fallbackReasons then genericInstructions brokerName
  else if reason = "unknown_captcha" then
    "The web form for " ++ brokerName ++ " has an unknown CAPTCHA type that could not be " ++
      "solved automatically. Please visit the URL below and complete the CAPTCHA manually, " ++
      "then submit the form."
  else if reason = "captcha_failed" then
    "The CAPTCHA solver failed for " ++ brokerName ++ "'s opt-out form. Please visit the URL " ++
      "below and complete the CAPTCHA manually."
  else if reason = "timeout" then
    "The web form for " ++ brokerName ++ " timed out during submission. This may indicate a " ++
      "slow server or a multi-step process. Please visit the URL below and complete the " ++
      "opt-out process manually."
  else if reason = "login_required" then
    "The web form for " ++ brokerName ++ " requires login or authentication. Automatic form " ++
      "filling cannot proceed. Please log in and complete the opt-out process manually."
  else if reason = "multi_step_exceeded" then
    "The web form for " ++ brokerName ++ " requires more steps than the configured limit. " ++
      "Please visit the URL below and follow the opt-out process to completion."
  else if reason = "dynamic_form" then
    "The web form for " ++ brokerName ++ " uses dynamic JavaScript fields that could not be " ++
      "filled automatically. Please visit the URL and complete the form manually."
  else if reason = "unknown_field" then
    "The web form for " ++ brokerName ++ " contains unknown fields that could not be mapped " ++
      "from the identity profile. Please visit the URL and complete the form manually."
  else if reason = "assertion_failed" then
    "The web form for " ++ brokerName ++ " was submitted but the expected confirmation message " ++
      "was not displayed. Please visit the URL and verify whether the opt-out was successful."
  else
    "An unexpected error occurred while processing the web form for " ++ brokerName ++ ". " ++
      "Please visit the URL below and complete the opt-out process manually."

/-! ### Timestamps -/

/-- `%Y-%m-%dT%H:%M:%S`. -/
def sqlTimestamp (now : DateTime) : String := String.ofList (format (wall (.literal 'T')) now)

/-- `%Y-%m-%d`, and after it a separator and `%H:%M`. -/
def dateItems : List Item := [.year, .literal '-', .month, .literal '-', .day]

/-- Hours and minutes. -/
def clockItems (sep : Item) : List Item := [sep, .hour, .literal ':', .minute]

/-- The layouts without an offset that the driver accepts. -/
def driverLayouts : List (List Item) :=
  [wall .space ++ [.fraction], wall (.literal 'T') ++ [.fraction], dateItems ++ clockItems .space,
    dateItems ++ clockItems (.literal 'T'), dateItems]

/-- The fraction of a second without its trailing zeros. -/
def driverFraction (t : DateTime) : List Char :=
  let digits := ((Decimal.fixed 9 (t.nanos % nanosPerSecond)).reverse.dropWhile (· == '0')).reverse
  if digits = [] then [] else '.' :: digits

/-- `Z` or `±HH:MM`. -/
def driverOffset (offset : ℤ) : List Char :=
  if offset = 0 then ['Z']
  else
    let minutes := offset.natAbs / 60
    (if offset < 0 then '-' else '+') ::
      Decimal.fixed 2 (minutes / 60) ++ ':' :: Decimal.fixed 2 (minutes % 60)

/-- A timestamp column as the driver hands it on; a text in no known layout stays as it is. -/
def driverTimestamp (value : String) : String :=
  let s := value.toList
  let withOffset := parseRfc3339 s <|>
    (Text.splitOnce ' ' s).bind fun (date, time) => parseRfc3339 (date ++ 'T' :: time)
  let naive := driverLayouts.findSome? fun layout => parseNaive layout s <|> parseDate layout s
  match withOffset <|> naive.map fun t => (t, 0) with
  | none => value
  | some (reading, offset) =>
      String.ofList (format (wall (.literal 'T')) reading ++ driverFraction reading ++
        driverOffset offset)

/-! ### The artifact directory -/

/-- `Path::join`. -/
def joinPath (root path : String) : String :=
  if path.toList.head? = some '/' ∨ root = "" then path
  else if root.toList.getLast? = some '/' then root ++ path
  else root ++ "/" ++ path

/-- The home directory. -/
def userHomeDir (env : Env) : Except String String :=
  match env.home with
  | some value => if value = "" then .error "$HOME is not defined" else .ok value
  | none => .error "$HOME is not defined"

/-- Only a leading `~` or `~/` is expanded. -/
def expandHome (env : Env) (path : String) : String :=
  match userHomeDir env, path.toList with
  | .ok home, ['~'] => home
  | .ok home, '~' :: '/' :: rest => joinPath home (String.ofList rest)
  | _, _ => path

/-- The directory of the task artifacts. -/
def tasksDir (env : Env) : Except String String :=
  match env.dataDir.filter (· ≠ "") with
  | some value => .ok (joinPath (expandHome env value) "manual_tasks")
  | none => (userHomeDir env).map fun home =>
      joinPath home ".local/share/symeraseme/manual_tasks"

/-! ### Creating a task -/

/-- A row as a queue record. -/
def scanTask (row : ℤ × TaskColumns) : ManualTask where
  id := row.1
  requestId := row.2.requestId
  brokerId := row.2.brokerId
  brokerName := row.2.brokerName
  formUrl := row.2.formUrl
  reason := row.2.reason
  instructions := row.2.instructions
  screenshotPath := row.2.screenshotPath
  htmlSnapshotPath := row.2.htmlSnapshotPath
  formFieldsJson := row.2.formFieldsJson
  status := row.2.status
  createdAt := driverTimestamp row.2.createdAt
  completedAt := row.2.completedAt.map driverTimestamp
  notes := row.2.notes

/-- The oldest pending task for a request, broker, form and reason. -/
def pendingTask (db : Store) (requestId : Option ℤ) (brokerId formUrl reason : String) :
    Option (ℤ × TaskColumns) :=
  db.tasks.rows.find? fun row =>
    row.2.status = "pending" ∧ row.2.brokerId = brokerId ∧ row.2.formUrl = formUrl ∧
      row.2.reason = reason ∧ row.2.requestId = requestId

/-- A reason outside the list is a generic error. -/
def fallbackReason (reason : String) : String :=
  if reason ∈ fallbackReasons then reason else "generic_error"

/-- The row of a new task, except for the snapshot and the time. -/
def taskColumns (env : Env) (opts : CreateOpts) (profile : Option Profile)
    (htmlSnapshotPath createdAt : String) : TaskColumns where
  requestId := opts.requestId
  brokerId := opts.brokerId
  brokerName := opts.brokerName
  formUrl := redactIdentityValues env opts.formUrl profile
  reason := fallbackReason opts.reason
  instructions :=
    instructionsForReason (fallbackReason opts.reason) opts.brokerName ++
      if opts.extraInstructions = "" then ""
      else "\n\n" ++ redactIdentityValues env opts.extraInstructions profile
  screenshotPath := redactIdentityValues env opts.screenshotPath profile
  htmlSnapshotPath := htmlSnapshotPath
  formFieldsJson := jsonObject (redactFields env opts.formFields profile)
  status := "pending"
  createdAt := createdAt
  completedAt := none
  notes := ""

/-- The payload of the event of a new task. -/
def taskPayload (env : Env) (opts : CreateOpts) (profile : Option Profile) (taskId : ℤ)
    (columns : TaskColumns) : Map :=
  [("manual_task_id", .int taskId), ("reason", .string columns.reason),
    ("form_url", .string columns.formUrl), ("instructions", .string columns.instructions),
    ("screenshot_path", .string columns.screenshotPath),
    ("broker_name", .string columns.brokerName), ("step_index", .int opts.stepIndex),
    ("total_steps", .int opts.totalSteps),
    ("error_message", .string (redactIdentityValues env opts.errorMessage profile))]

/-- Where the snapshot went; a snapshot that cannot be written is dropped. -/
def snapshotPath (env : Env) (opts : CreateOpts) (profile : Option Profile) (now : DateTime)
    (dir : String) : Except String String :=
  if opts.htmlSnapshot = "" then .ok ""
  else (env.ensureTasksDir dir).map fun _ =>
    let path := joinPath dir
      ("snapshot_" ++ toString (now.timestampNanosOpt.getD 0) ++ ".html")
    if env.writePrivate path (redactIdentityValues env opts.htmlSnapshot profile) then path else ""

/-- Why the transaction of `create` ends without a commit. -/
inductive CreateExit
  | failed (message : String)
  | existing (task : ManualTask)

/-- The row inserted for a new task, and its event. -/
def insertTaskTx (env : Env) (opts : CreateOpts) (profile : Option Profile) (now : DateTime)
    (htmlSnapshotPath : String) : Db Store τ CreateExit ℤ := do
  let taskId ← Db.mapError
    (statement fun reply (db : Store) =>
      if opts.requestId.all fun id => (db.requests.find id).isSome then
        let columns :=
          taskColumns env opts profile htmlSnapshotPath (Timeutil.formatSql reply.now)
        .ok (db.tasks.seq + 1, { db with tasks := db.tasks.insert columns })
      else .error foreignKeyFailed)
    .failed
  match opts.requestId.filter (· ≠ 0) with
  | none => pure taskId
  | some requestId => do
      let columns := taskColumns env opts profile htmlSnapshotPath (sqlTimestamp now)
      let _ ← Db.mapError
        (appendAndProjectTx env.arch requestId .humanActionRequired
          (taskPayload env opts profile taskId columns) .system now)
        fun e => .failed e.display
      pure taskId

/-- The pending task that stands for the one asked for. -/
def pendingFor (env : Env) (db : Store) (opts : CreateOpts) (profile : Option Profile) :
    Option (ℤ × TaskColumns) :=
  pendingTask db opts.requestId opts.brokerId (redactIdentityValues env opts.formUrl profile)
    (fallbackReason opts.reason)

/-- The artifact directory, and the snapshot in it. -/
def artifactPath (env : Env) (opts : CreateOpts) (profile : Option Profile) (now : DateTime) :
    Except String String :=
  (tasksDir env).bind (snapshotPath env opts profile now)

/-- Make a task, unless there is one. -/
def createTx (env : Env) (opts : CreateOpts) (profile : Option Profile) (now : DateTime) :
    Db Store τ CreateExit ManualTask := do
  let existing ← Db.mapError (query fun _ db => pendingFor env db opts profile) .failed
  match existing with
  | some row => fail (.existing (scanTask row))
  | none =>
      match artifactPath env opts profile now with
      | .error message => fail (.failed message)
      | .ok htmlSnapshotPath => do
          let taskId ← insertTaskTx env opts profile now htmlSnapshotPath
          let columns := taskColumns env opts profile htmlSnapshotPath (sqlTimestamp now)
          pure
            { id := taskId
              requestId := columns.requestId
              brokerId := columns.brokerId
              brokerName := columns.brokerName
              formUrl := columns.formUrl
              reason := columns.reason
              instructions := columns.instructions
              screenshotPath := columns.screenshotPath
              htmlSnapshotPath := columns.htmlSnapshotPath
              formFieldsJson := columns.formFieldsJson
              status := columns.status
              createdAt := columns.createdAt
              completedAt := none
              notes := "" }

/-- Persist a pending task and the event of its request, or return the one that is pending. -/
def create (env : Env) (opts : CreateOpts) (profile : Option Profile) (now : DateTime) :
    Db Store τ String ManualTask := do
  let outcome ← attempt (transaction .failed (createTx env opts profile now))
  match outcome with
  | .ok task => pure task
  | .error (.existing task) => pure task
  | .error (.failed message) => fail message

/-! ### Closing a task -/

/-- The row of a task that is completed or cancelled. -/
def closedColumns (columns : TaskColumns) (completed : Bool) (notes : String) (now : DateTime) :
    TaskColumns :=
  { columns with
    status := if completed then "completed" else "cancelled"
    completedAt := some (sqlTimestamp now)
    notes := notes }

/-- The payload of the event of a closed task. -/
def notePayload (taskId : ℤ) (columns : TaskColumns) : Map :=
  [("note", .string ("Manual task #" ++ toString taskId ++ " " ++ columns.status ++ ": " ++
      columns.notes)),
    ("manual_task_id", .int taskId), ("form_url", .string columns.formUrl)]

/-- Why the transaction of `complete` ends without a commit. -/
inductive CompleteExit
  | failed (message : String)
  | missing

/-- Complete a task. -/
def completeTx (arch : TargetArch) (taskId : ℤ) (notes : String) (completed : Bool)
    (now : DateTime) : Db Store τ CompleteExit ManualTask := do
  let existing ← Db.mapError (query fun _ (db : Store) => db.tasks.find taskId) .failed
  match existing with
  | none => fail .missing
  | some columns => do
      let closed := closedColumns columns completed notes now
      let _ ← Db.mapError
        (statement fun _ (db : Store) =>
          .ok ((), { db with
            tasks := db.tasks.update taskId fun row => closedColumns row completed notes now }))
        .failed
      let task : ManualTask :=
        { scanTask (taskId, columns) with
          status := closed.status
          completedAt := some (sqlTimestamp now)
          notes := notes }
      match columns.requestId.filter (· ≠ 0) with
      | none => pure task
      | some requestId => do
          let _ ← Db.mapError
            (appendAndProjectTx arch requestId .noteAdded (notePayload taskId closed) .user now)
            fun e => .failed e.display
          pure task

/-- Mark a task completed or cancelled and record it at its request. -/
def complete (arch : TargetArch) (taskId : ℤ) (notes : String) (completed : Bool)
    (now : DateTime) : Db Store τ String (Option ManualTask) := do
  let outcome ← attempt (transaction .failed (completeTx arch taskId notes completed now))
  match outcome with
  | .ok task => pure (some task)
  | .error .missing => pure none
  | .error (.failed message) => fail message

/-! ### What `create` does -/

section Spec

variable {A : Reply → Prop} (env : Env) (opts : CreateOpts) (profile : Option Profile)
  (now : DateTime)

/-- The store with a task row appended. -/
def withTask (db : Store) (columns : TaskColumns) : Store :=
  { db with tasks := db.tasks.insert columns }

/-- A task row was inserted and, when it names a request, its event appended and projected. -/
def Created (path : String) (db₀ db : Store) : Prop :=
  ∃ createdAt,
    (opts.requestId.filter (· ≠ 0) = none ∧
      db = withTask db₀ (taskColumns env opts profile path createdAt)) ∨
    ∃ requestId payload, opts.requestId.filter (· ≠ 0) = some requestId ∧
      Recorded env.arch requestId .humanActionRequired payload now
        (withTask db₀ (taskColumns env opts profile path createdAt)) db

/-- As `Created`, with the payload that carries the id of the new row. -/
def Inserted (path : String) (db₀ db : Store) : Prop :=
  ∃ createdAt,
    (opts.requestId.filter (· ≠ 0) = none ∧
      db = withTask db₀ (taskColumns env opts profile path createdAt)) ∨
    ∃ requestId, opts.requestId.filter (· ≠ 0) = some requestId ∧
      Recorded env.arch requestId .humanActionRequired
        (taskPayload env opts profile (db₀.tasks.seq + 1)
          (taskColumns env opts profile path (sqlTimestamp now))) now
        (withTask db₀ (taskColumns env opts profile path createdAt)) db

theorem Inserted.created {path : String} {db₀ db : Store}
    (h : Inserted env opts profile now path db₀ db) :
    Created env opts profile now path db₀ db := by
  obtain ⟨createdAt, h | ⟨requestId, hid, h⟩⟩ := h
  · exact ⟨createdAt, Or.inl h⟩
  · exact ⟨createdAt, Or.inr ⟨requestId, _, hid, h⟩⟩

/-- The request of a task, if it names one, exists. -/
def RequestExists (db : Store) : Prop := ∀ id ∈ opts.requestId, (db.requests.find id).isSome

theorem requestExists_iff {opts : CreateOpts} {db : Store} :
    (opts.requestId.all fun id => (db.requests.find id).isSome) = true ↔ RequestExists opts db := by
  cases h : opts.requestId with
  | none => simp [RequestExists, h]
  | some id => simp [RequestExists, h]

theorem insertTaskTx_spec (db₀ : Store) (tr₀ : List τ) (path : String) :
    Triple A (fun db tr => db = db₀ ∧ tr = tr₀) (insertTaskTx env opts profile now path)
      fun r db tr => tr = tr₀ ∧ match r with
        | .ok _ => Inserted env opts profile now path db₀ db
        | .error e => (∃ message, e = .failed message) ∧
            (CanFail A ∨ ¬ RequestExists opts db₀) := by
  unfold insertTaskTx
  have hinsert : Triple A (fun db tr => db = db₀ ∧ tr = tr₀)
      (Db.mapError (statement fun reply (db : Store) =>
        if opts.requestId.all fun id => (db.requests.find id).isSome then
          let columns :=
            taskColumns env opts profile path (Timeutil.formatSql reply.now)
          .ok (db.tasks.seq + 1, { db with tasks := db.tasks.insert columns })
        else .error foreignKeyFailed) CreateExit.failed) fun r db tr =>
      tr = tr₀ ∧ match r with
        | .ok taskId => taskId = db₀.tasks.seq + 1 ∧ RequestExists opts db₀ ∧
            ∃ createdAt, db = withTask db₀ (taskColumns env opts profile path createdAt)
        | .error e => (∃ message, e = .failed message) ∧
            (CanFail A ∨ ¬ RequestExists opts db₀) := by
    refine Triple.mapError (Triple.statement ?_ ?_)
    · rintro r db tr - ⟨rfl, rfl⟩ - a db' hf
      split_ifs at hf with hall
      cases hf
      exact ⟨rfl, rfl, requestExists_iff.1 hall, _, rfl⟩
    · rintro r db tr e hr ⟨rfl, rfl⟩ h
      refine ⟨rfl, ⟨e, rfl⟩, ?_⟩
      rcases h with h | ⟨-, h⟩
      · exact Or.inl ⟨r, e, hr, h⟩
      · split_ifs at h with hall
        exact Or.inr fun hex => hall (requestExists_iff.2 hex)
  refine Triple.bind hinsert (fun taskId => ?_) (fun e db tr h => h)
  refine Triple.ghost fun db₁ tr₁ h => ?_
  obtain ⟨rfl, rfl, hex, createdAt, rfl⟩ := h
  cases hid : opts.requestId.filter (· ≠ 0) with
  | none =>
    exact Triple.pure fun db tr h => ⟨h.2, createdAt, Or.inl ⟨hid, h.1⟩⟩
  | some requestId =>
    obtain ⟨hreq, -⟩ := Option.filter_eq_some_iff.1 hid
    refine Triple.bind (R := fun r db tr => tr = tr₁ ∧ match r with
      | .ok _ => Recorded env.arch requestId .humanActionRequired
          (taskPayload env opts profile (db₀.tasks.seq + 1)
            (taskColumns env opts profile path (sqlTimestamp now))) now
          (withTask db₀ (taskColumns env opts profile path createdAt)) db
      | .error e => (∃ message, e = .failed message) ∧ CanFail A)
      (Triple.mapError ((appendAndProjectTx_spec env.arch _ _ requestId _ _ _ now).conseq
        (fun db tr h => h) fun r db tr h => ?_)) (fun a => ?_) ?_
    · cases r with
      | ok a => exact ⟨h.1, h.2.2⟩
      | error e =>
        obtain ⟨htr, hfail | hap⟩ := h
        · exact ⟨htr, ⟨_, rfl⟩, hfail⟩
        · exact absurd ⟨by simp, by simp, hex requestId hreq⟩ hap
    · exact Triple.pure fun db tr h => ⟨h.1, createdAt, Or.inr ⟨requestId, hid, h.2⟩⟩
    · exact fun e db tr h => ⟨h.1, h.2.1, Or.inl h.2.2⟩

/-- A pending task is returned and nothing is written; a failure writes nothing either. -/
theorem create_returns (db₀ : Store) (tr₀ : List τ) :
    Triple A (fun db tr => db = db₀ ∧ tr = tr₀) (create env opts profile now) fun r db tr =>
      tr = tr₀ ∧ match r with
        | .ok task =>
            (∃ row, pendingFor env db₀ opts profile = some row ∧ task = scanTask row ∧ db = db₀) ∨
            pendingFor env db₀ opts profile = none ∧
              ∃ path, artifactPath env opts profile now = .ok path ∧
                Inserted env opts profile now path db₀ db
        | .error _ => db = db₀ ∧ (CanFail A ∨ pendingFor env db₀ opts profile = none ∧
            (¬ RequestExists opts db₀ ∨
              ∃ message, artifactPath env opts profile now = .error message)) := by
  unfold create
  refine Triple.bind (R := fun r db tr => tr = tr₀ ∧ match r with
      | .ok (.ok _) => pendingFor env db₀ opts profile = none ∧
          ∃ path, artifactPath env opts profile now = .ok path ∧
            Inserted env opts profile now path db₀ db
      | .ok (.error (.existing task)) => db = db₀ ∧
          ∃ row, pendingFor env db₀ opts profile = some row ∧ task = scanTask row
      | .ok (.error (.failed _)) => db = db₀ ∧ (CanFail A ∨
          pendingFor env db₀ opts profile = none ∧ (¬ RequestExists opts db₀ ∨
            ∃ message, artifactPath env opts profile now = .error message))
      | .error _ => False)
    (Triple.attempt (Triple.transaction (fun db₁ tr₁ h => ?_) fun r e db tr hr he h => ?_))
    (fun outcome => ?_) (fun e db tr h => absurd h.2 id)
  · obtain ⟨rfl, rfl⟩ := h
    unfold createTx
    refine Triple.bind (R := fun r db tr => db = db₁ ∧ tr = tr₁ ∧ match r with
        | .ok existing => existing = pendingFor env db₁ opts profile
        | .error e => CanFail A ∧ ∃ message, e = .failed message)
      (Triple.mapError (Triple.query ?_ ?_)) (fun existing => ?_) ?_
    · rintro r db tr - ⟨rfl, rfl⟩
      exact ⟨rfl, rfl, rfl⟩
    · rintro r db tr e hr ⟨rfl, rfl⟩ he
      exact ⟨rfl, rfl, ⟨r, e, hr, he⟩, e, rfl⟩
    · cases existing with
      | some row => exact Triple.fail fun db tr h => ⟨h.2.1, rfl, row, h.2.2.symm, rfl⟩
      | none =>
        cases hpath : artifactPath env opts profile now with
        | error message =>
          exact Triple.fail fun db tr h =>
            ⟨h.2.1, rfl, Or.inr ⟨h.2.2.symm, Or.inr ⟨message, rfl⟩⟩⟩
        | ok path =>
          refine Triple.ghost fun db₂ tr₂ h => ?_
          obtain ⟨rfl, rfl, hnone⟩ := h
          refine Triple.bind (insertTaskTx_spec env opts profile now db₂ tr₂ path)
            (fun taskId => ?_) ?_
          · exact Triple.pure fun db tr h => ⟨⟨h.1, hnone.symm, path, rfl, h.2⟩,
              fun r e hr he => ⟨h.1, rfl, Or.inl ⟨r, e, hr, he⟩⟩⟩
          · rintro e db tr ⟨htr, ⟨message, rfl⟩, hfail⟩
            exact ⟨htr, rfl, hfail.imp_right fun hreq => ⟨hnone.symm, Or.inl hreq⟩⟩
    · rintro e db tr ⟨rfl, rfl, hfail, message, rfl⟩
      exact ⟨rfl, rfl, Or.inl hfail⟩
  · exact ⟨h.2, h.1, Or.inl ⟨r, e, hr, he⟩⟩
  · match outcome with
    | .ok task => exact Triple.pure fun db tr h => ⟨h.1, Or.inr h.2⟩
    | .error (.existing task) =>
      refine Triple.pure fun db tr h => ⟨h.1, Or.inl ?_⟩
      obtain ⟨-, hdb, row, hrow, htask⟩ := h
      exact ⟨row, hrow, htask, hdb⟩
    | .error (.failed message) => exact Triple.fail fun db tr h => h

/-- `create_returns`, without the task that is returned. -/
theorem create_spec (db₀ : Store) (tr₀ : List τ) :
    Triple A (fun db tr => db = db₀ ∧ tr = tr₀) (create env opts profile now) fun r db tr =>
      tr = tr₀ ∧ match r with
        | .ok _ => (∃ row, pendingFor env db₀ opts profile = some row ∧ db = db₀) ∨
            pendingFor env db₀ opts profile = none ∧
              ∃ path, artifactPath env opts profile now = .ok path ∧
                Created env opts profile now path db₀ db
        | .error _ => db = db₀ ∧ (CanFail A ∨ ¬ RequestExists opts db₀ ∨
            pendingFor env db₀ opts profile = none ∧
              ∃ message, artifactPath env opts profile now = .error message) := by
  refine (create_returns env opts profile now db₀ tr₀).conseq (fun _ _ h => h)
    fun r db tr h => ⟨h.1, ?_⟩
  cases r with
  | ok task =>
    rcases h.2 with ⟨row, hrow, -, hdb⟩ | ⟨hnone, path, hpath, hinserted⟩
    · exact Or.inl ⟨row, hrow, hdb⟩
    · exact Or.inr ⟨hnone, path, hpath, hinserted.created env opts profile now⟩
  | error e =>
    refine ⟨h.2.1, h.2.2.imp_right ?_⟩
    rintro ⟨hnone, hreq | hpath⟩
    · exact Or.inl hreq
    · exact Or.inr ⟨hnone, hpath⟩

end Spec

/-! ### What `complete` does -/

section Closing

variable {A : Reply → Prop} (arch : TargetArch) (taskId : ℤ) (notes : String) (completed : Bool)
  (now : DateTime)

/-- The store with a task row closed. -/
def withClosed (db : Store) : Store :=
  { db with tasks := db.tasks.update taskId fun row => closedColumns row completed notes now }

/-- A row was closed and, when it names a request, a note appended to it. -/
def Closed (db₀ db : Store) : Prop :=
  ∃ columns, db₀.tasks.find taskId = some columns ∧
    (columns.requestId.filter (· ≠ 0) = none ∧ db = withClosed taskId notes completed now db₀ ∨
    ∃ requestId recordedAt projectedAt, columns.requestId.filter (· ≠ 0) = some requestId ∧
      db = ((withClosed taskId notes completed now db₀).withEvent
        (eventColumns requestId .noteAdded
          (notePayload taskId (closedColumns columns completed notes now)) .user now
          recordedAt)).projected arch requestId projectedAt)

/-- A task that does not exist and a failure leave the store as it is. -/
theorem complete_returns (db₀ : Store) (tr₀ : List τ) :
    Triple A (fun db tr => db = db₀ ∧ tr = tr₀) (complete arch taskId notes completed now)
      fun r db _ => match r with
        | .ok none => db₀.tasks.find taskId = none ∧ db = db₀
        | .ok (some _) => Closed arch taskId notes completed now db₀ db
        | .error _ => db = db₀ := by
  unfold complete
  refine Triple.bind (R := fun r db _ => match r with
      | .ok (.ok _) => Closed arch taskId notes completed now db₀ db
      | .ok (.error .missing) => db₀.tasks.find taskId = none ∧ db = db₀
      | .ok (.error (.failed _)) => db = db₀
      | .error _ => False)
    (Triple.attempt (Triple.transaction (fun db₁ tr₁ h => ?_) fun r e db tr hr he h => h.1))
    (fun outcome => ?_) (fun e db tr h => absurd h id)
  · obtain ⟨rfl, rfl⟩ := h
    unfold completeTx
    refine Triple.bind (R := fun r db tr => db = db₁ ∧ tr = tr₁ ∧ match r with
        | .ok existing => existing = db₁.tasks.find taskId
        | .error e => ∃ message, e = .failed message)
      (Triple.mapError (Triple.query ?_ ?_)) (fun existing => ?_) ?_
    · rintro r db tr - ⟨rfl, rfl⟩
      exact ⟨rfl, rfl, rfl⟩
    · rintro r db tr e hr ⟨rfl, rfl⟩ he
      exact ⟨rfl, rfl, e, rfl⟩
    · cases existing with
      | none => exact Triple.fail fun db tr h => ⟨h.2.2.symm, rfl⟩
      | some columns =>
        refine Triple.bind (R := fun r db tr => tr = tr₁ ∧ match r with
            | .ok _ => db₁.tasks.find taskId = some columns ∧
                db = withClosed taskId notes completed now db₁
            | .error e => ∃ message, e = .failed message)
          (Triple.mapError (Triple.statement ?_ ?_)) (fun _ => ?_) ?_
        · rintro r db tr - ⟨rfl, rfl, hfind⟩ - a db' hf
          cases hf
          exact ⟨rfl, hfind.symm, rfl⟩
        · rintro r db tr e - ⟨rfl, rfl, -⟩ -
          exact ⟨rfl, e, rfl⟩
        · refine Triple.ghost fun db₂ tr₂ h => ?_
          obtain ⟨rfl, hfind, rfl⟩ := h
          cases hid : columns.requestId.filter (· ≠ 0) with
          | none =>
            exact Triple.pure fun db tr h =>
              ⟨⟨columns, hfind, Or.inl ⟨hid, h.1⟩⟩, fun _ _ _ _ => rfl⟩
          | some requestId =>
            refine Triple.bind (R := fun r db _ => match r with
                | .ok _ => ∃ recordedAt projectedAt,
                    db = ((withClosed taskId notes completed now db₁).withEvent
                      (eventColumns requestId .noteAdded
                        (notePayload taskId (closedColumns columns completed notes now)) .user now
                        recordedAt)).projected arch requestId projectedAt
                | .error e => ∃ message, e = .failed message)
              (Triple.mapError ((appendAndProjectTx_spec arch _ _ requestId _ _ _
                now).conseq (fun _ _ h => h) fun r db tr h => ?_)) (fun a => ?_) ?_
            · cases r with
              | ok a => exact h.2.2
              | error e => exact ⟨_, rfl⟩
            · refine Triple.pure fun db tr h => ⟨⟨columns, hfind, Or.inr ?_⟩, fun _ _ _ _ => rfl⟩
              obtain ⟨recordedAt, projectedAt, h⟩ := h
              exact ⟨requestId, recordedAt, projectedAt, hid, h⟩
            · rintro e db tr ⟨message, rfl⟩
              rfl
        · rintro e db tr ⟨-, message, rfl⟩
          rfl
    · rintro e db tr ⟨rfl, -, message, rfl⟩
      rfl
  · match outcome with
    | .ok task => exact Triple.pure fun db tr h => h
    | .error .missing => exact Triple.pure fun db tr h => h
    | .error (.failed message) => exact Triple.fail fun db tr h => h

end Closing

end Manualtasks

end EraseMe
