import EraseMe.Campaign
import EraseMe.Storage.Replay

/-!
# What an execution does

`executeRequest_spec` says all that running one request can do: nothing, hand one mail over and
record the answer, or record the outcome of a web form, with a manual task where one is asked for.
`executeCampaign_cases` and `executeBatch_spec` reduce a campaign to its batch, one request after
the other.
-/

namespace EraseMe.Campaign

open Chrono Identity Json Registry Sqlite Storage

variable {A : Reply → Prop}

/-! ### What one request leaves alone -/

/-- The stores differ at most in the tasks, in the state of one request and in events of that
request, appended under one text. -/
structure OnlyTouches (requestId : ℤ) (text : String) (db₀ db : Store) : Prop where
  requests_eq : db.requests = db₀.requests
  state_eq : ∀ id, id ≠ requestId → db.state id = db₀.state id
  rows_eq : ∃ new, db.events.rows = db₀.events.rows ++ new ∧
    ∀ row ∈ new, row.2.requestId = requestId ∧ row.2.occurredAt = text

namespace OnlyTouches

variable {requestId : ℤ} {text : String} {db₀ db₁ db₂ : Store}

theorem refl (requestId : ℤ) (text : String) (db : Store) : OnlyTouches requestId text db db :=
  ⟨rfl, fun _ _ => rfl, [], by simp, by simp⟩

theorem trans (h₁ : OnlyTouches requestId text db₀ db₁) (h₂ : OnlyTouches requestId text db₁ db₂) :
    OnlyTouches requestId text db₀ db₂ := by
  obtain ⟨new₁, hrows₁, hnew₁⟩ := h₁.rows_eq
  obtain ⟨new₂, hrows₂, hnew₂⟩ := h₂.rows_eq
  refine ⟨h₂.requests_eq.trans h₁.requests_eq,
    fun id hid => (h₂.state_eq id hid).trans (h₁.state_eq id hid), new₁ ++ new₂, ?_, ?_⟩
  · rw [hrows₂, hrows₁, List.append_assoc]
  · intro row hrow
    rcases List.mem_append.1 hrow with hrow | hrow
    · exact hnew₁ row hrow
    · exact hnew₂ row hrow

theorem mem_rows (h : OnlyTouches requestId text db₀ db₁) {row : ℤ × EventColumns}
    (hrow : row ∈ db₁.events.rows) : row ∈ db₀.events.rows ∨ row.2.occurredAt = text := by
  obtain ⟨new, hrows, hnew⟩ := h.rows_eq
  rw [hrows] at hrow
  exact (List.mem_append.1 hrow).imp_right fun h => (hnew row h).2

theorem recorded {arch : TargetArch} {eventType : EventType} {payload : Map} {now : DateTime}
    (h : Recorded arch requestId eventType payload now db₀ db₁) :
    OnlyTouches requestId (Timeutil.formatSql now) db₀ db₁ := by
  obtain ⟨recordedAt, writtenAt, rfl⟩ := h
  refine ⟨rfl, fun id hid => projected_state_of_ne _ _ _ _ hid, [_], rfl, fun row hrow => ?_⟩
  rw [List.mem_singleton.1 hrow]
  exact ⟨rfl, rfl⟩

theorem withTask (requestId : ℤ) (text : String) (db : Store) (columns : TaskColumns) :
    OnlyTouches requestId text db (Manualtasks.withTask db columns) :=
  ⟨rfl, fun _ _ => rfl, [], (List.append_nil _).symm, by simp⟩

theorem created {env : Env} {task : Manualtasks.CreateOpts} {profile : Option Profile}
    {now : DateTime} {path : String} (htask : task.requestId = some requestId)
    (h : Manualtasks.Created env task profile now path db₀ db₁) :
    OnlyTouches requestId (Timeutil.formatSql now) db₀ db₁ := by
  obtain ⟨createdAt, ⟨-, rfl⟩ | ⟨id, payload, hid, h⟩⟩ := h
  · exact withTask ..
  · rw [htask] at hid
    obtain ⟨hid, -⟩ := Option.filter_eq_some_iff.1 hid
    cases hid
    exact (withTask ..).trans (recorded h)

end OnlyTouches

/-! ### E-mail requests -/

/-- The payload an e-mail request is addressed from. -/
def lastPayload (db : Store) (requestId : ℤ) : Map :=
  ((db.replayed requestId).getLast?.map EventRecord.payload).getD []

/-- A run of the request hands a mail over, when there is a sender. -/
structure HandsOver (db : Store) (requestId : ℤ) (opts : ExecuteOpts) (source : ProfileSource)
    (request : RemovalRequest) (profile : Profile) : Prop where
  request_eq : db.request requestId = some request
  channel_ne : channelOf request ≠ "web_form"
  live : opts.dryRun = false
  source_eq : source = .ok (some profile)
  fields_eq : missingFields profile (requiredFields (lastPayload db requestId)) = []

/-- The event that records the answer of the sender. -/
def Answered (env : Env) (request : RemovalRequest) (payload : Map) (account : String)
    (profile : Profile) (now : DateTime) (answer : Except String Map) (db₀ db : Store) : Prop :=
  match answer with
  | .ok result => Recorded env.arch request.id .sent
      (sentPayload env request payload account profile result) now db₀ db
  | .error message => Recorded env.arch request.id .sendFailed (refusedPayload payload message) now
      db₀ db

/-- A mail was handed over and, unless a statement failed, its answer recorded. -/
def Mailed (A : Reply → Prop) (env : Env) (requestId : ℤ) (opts : ExecuteOpts)
    (source : ProfileSource) (now : DateTime) (db₀ : Store) (tr₀ : List Mail) (db : Store)
    (tr : List Mail) : Prop :=
  ∃ request profile sender, HandsOver db₀ requestId opts source request profile ∧
    opts.emailSender = some sender ∧
    tr = tr₀ ++ [mailOf request (lastPayload db₀ requestId) profile] ∧
    (db = db₀ ∧ CanFail A ∨
      Answered env request (lastPayload db₀ requestId) opts.account profile now
        (sender tr₀ (mailOf request (lastPayload db₀ requestId) profile).endpoint
          (mailOf request (lastPayload db₀ requestId) profile).subject
          (mailOf request (lastPayload db₀ requestId) profile).body) db₀ db)

theorem request_id {db : Store} {requestId : ℤ} {request : RemovalRequest}
    (h : db.request requestId = some request) : request.id = requestId := by
  obtain ⟨columns, -, rfl⟩ := Option.map_eq_some_iff.1 h
  rfl

theorem request_exists {db : Store} {requestId : ℤ} {request : RemovalRequest}
    (h : db.request requestId = some request) : (db.requests.find requestId).isSome := by
  obtain ⟨columns, hfind, -⟩ := Option.map_eq_some_iff.1 h
  rw [hfind]
  rfl

/-- An event appended by a run: recorded, unless a statement failed. -/
theorem record_spec {ε : Type} (env : Env) (wrap : ProjectionError → ε) (db₀ : Store)
    (tr₀ : List Mail) {requestId : ℤ} {eventType : EventType} (payload : Map) (now : DateTime)
    (hreq : (db₀.requests.find requestId).isSome) (ht : ∀ v, eventType ≠ .unknown v) :
    Triple A (fun db tr => db = db₀ ∧ tr = tr₀)
      (Db.mapError (appendAndProject env.arch requestId eventType payload .system now) wrap)
      fun _ db tr => tr = tr₀ ∧
        (db = db₀ ∧ CanFail A ∨ Recorded env.arch requestId eventType payload now db₀ db) := by
  refine Triple.mapError ((appendAndProject_recorded env.arch db₀ tr₀ payload now hreq ht).conseq
    (fun db tr h => h) fun r db tr h => ⟨h.1, ?_⟩)
  cases r with
  | ok a => exact Or.inr h.2
  | error e => exact Or.inl h.2

theorem sendMail_spec (env : Env) {requestId : ℤ} {request : RemovalRequest} (payload : Map)
    (account : String) (profile : Profile) (sender : EmailSender) (now : DateTime) (db₀ : Store)
    (tr₀ : List Mail) (hreq : db₀.request requestId = some request) :
    Triple A (fun db tr => db = db₀ ∧ tr = tr₀)
      (sendMail env request payload account profile sender now) fun _ db tr =>
        tr = tr₀ ++ [mailOf request payload profile] ∧
          (db = db₀ ∧ CanFail A ∨ Answered env request payload account profile now
            (sender tr₀ (mailOf request payload profile).endpoint
              (mailOf request payload profile).subject (mailOf request payload profile).body)
            db₀ db) := by
  have hex : (db₀.requests.find request.id).isSome := by
    rw [request_id hreq]
    exact request_exists hreq
  unfold sendMail
  refine Triple.bind (R := fun r db tr => db = db₀ ∧
      tr = tr₀ ++ [mailOf request payload profile] ∧
      r = .ok (sender tr₀ (mailOf request payload profile).endpoint
        (mailOf request payload profile).subject (mailOf request payload profile).body))
    (Triple.perform ?_) (fun answer => ?_) ?_
  · rintro db tr ⟨rfl, rfl⟩
    exact ⟨rfl, rfl, rfl⟩
  · refine Triple.ghost fun db₁ tr₁ h => ?_
    obtain ⟨rfl, rfl, hanswer⟩ := h
    rw [← Except.ok.inj hanswer]
    cases answer with
    | error message =>
      exact Triple.bind (record_spec env _ db₁ _ _ now hex (by simp))
        (fun a => Triple.fail fun db tr h => h) (fun e db tr h => h)
    | ok result =>
      exact Triple.bind (record_spec env _ db₁ _ _ now hex (by simp))
        (fun a => Triple.pure fun db tr h => h) (fun e db tr h => h)
  · rintro e db tr ⟨-, -, h⟩
    cases h

/-! ### Web-form requests -/

theorem sanitizeWebFormResult_append (env : Env) (raw : Map) (member : String × Json)
    (profile : Option Profile) :
    sanitizeWebFormResult env (raw ++ [member]) profile =
      match sanitizeField env profile member.1 member.2 with
      | some value => (sanitizeWebFormResult env raw profile).insert member.1 value
      | none => sanitizeWebFormResult env raw profile := by
  rw [sanitizeWebFormResult, List.foldl_append]
  rfl

/-- A member of a sanitised result. -/
theorem get_sanitizeWebFormResult (env : Env) (profile : Option Profile) {raw : Map}
    (hnodup : (raw.map Prod.fst).Nodup) (key : String) :
    (sanitizeWebFormResult env raw profile).get key =
      (raw.get key).bind (sanitizeField env profile key) := by
  induction raw using List.reverseRecOn with
  | nil => rfl
  | append_singleton raw member ih =>
    rw [List.map_append, List.nodup_append] at hnodup
    have hfresh : ∀ v, (member.1, v) ∉ raw := fun v hv =>
      hnodup.2.2 _ (List.mem_map_of_mem hv) member.1 (by simp) rfl
    have hnone : Map.get raw member.1 = none := by
      by_contra h
      obtain ⟨f, hf, hkey⟩ := List.any_eq_true.1 ((Map.any_eq_true_iff raw member.1).2 h)
      exact hfresh f.2 (by rw [← beq_iff_eq.1 hkey]; exact hf)
    rw [sanitizeWebFormResult_append, Map.get_append, Map.get_cons, Map.get_nil]
    by_cases hkey : key = member.1
    · rw [hkey, hnone, if_pos rfl, Option.none_or, Option.bind_some]
      cases hval : sanitizeField env profile member.1 member.2 with
      | some value => rw [Map.get_insert, if_pos rfl]
      | none =>
        change (sanitizeWebFormResult env raw profile).get member.1 = none
        rw [← hkey, ih hnodup.1, hkey, hnone, Option.bind_none]
    · rw [if_neg hkey, Option.or_none, ← ih hnodup.1]
      cases sanitizeField env profile member.1 member.2 with
      | some value => rw [Map.get_insert, if_neg hkey]
      | none => rfl

/-- A dry run that finds the form of the broker. -/
def previewed (opts : ExecuteOpts) (brokerId : String) : Bool :=
  opts.dryRun && (webFormPreview opts.brokers brokerId opts.dryRun).isOk

/-- The three answers of the form adapter. -/
theorem webFormPreview_cases (brokers : List Broker) (brokerId : String) (dryRun : Bool) :
    (∃ message, webFormPreview brokers brokerId dryRun = .error (invalidSpec message dryRun)) ∨
      ∃ broker url formSpec, webFormPreview brokers brokerId dryRun =
        .ok (if dryRun then formPreview broker url formSpec else manualAction broker url) := by
  unfold webFormPreview
  split
  · exact Or.inl ⟨_, rfl⟩
  · split
    · exact Or.inl ⟨_, rfl⟩
    · exact Or.inr ⟨_, _, _, rfl⟩

/-- What a run reads in the answer of the form adapter. -/
theorem webFormRaw_members (opts : ExecuteOpts) (brokerId : String) :
    ((webFormRaw opts.brokers brokerId opts.dryRun).map Prod.fst).Nodup ∧
      (webFormRaw opts.brokers brokerId opts.dryRun).get "success" =
        some (.bool (previewed opts brokerId)) ∧
      (webFormRaw opts.brokers brokerId opts.dryRun).get "task_id" = none := by
  unfold webFormRaw previewed
  rcases webFormPreview_cases opts.brokers brokerId opts.dryRun with
    ⟨message, h⟩ | ⟨broker, url, formSpec, h⟩
  · rw [h]
    simp [invalidSpec, Map.get_cons, Except.isOk, Except.toBool]
  · rw [h]
    cases opts.dryRun with
    | false => simp [manualAction, Map.get_cons]
    | true => simp [formPreview, Map.get_cons, Except.isOk, Except.toBool]

theorem get_success (env : Env) (profile : Option Profile) (opts : ExecuteOpts)
    (brokerId : String) :
    (sanitizeWebFormResult env (webFormRaw opts.brokers brokerId opts.dryRun) profile).get
      "success" = some (.bool (previewed opts brokerId)) := by
  obtain ⟨hnodup, hsuccess, -⟩ := webFormRaw_members opts brokerId
  rw [get_sanitizeWebFormResult env profile hnodup, hsuccess]
  rfl

theorem get_taskId (env : Env) (profile : Option Profile) (opts : ExecuteOpts)
    (brokerId : String) :
    (sanitizeWebFormResult env (webFormRaw opts.brokers brokerId opts.dryRun) profile).get
      "task_id" = none := by
  obtain ⟨hnodup, -, htask⟩ := webFormRaw_members opts brokerId
  rw [get_sanitizeWebFormResult env profile hnodup, htask]
  rfl

/-- The manual task of a run that previews nothing. -/
def taskOf (env : Env) (requestId : ℤ) (brokerId : String) (opts : ExecuteOpts)
    (profile : Option Profile) : Manualtasks.CreateOpts :=
  formTask requestId brokerId (webFormRaw opts.brokers brokerId opts.dryRun)
    (sanitizeWebFormResult env (webFormRaw opts.brokers brokerId opts.dryRun) profile)

/-- No manual task is pending and the artifact directory is unknown. -/
def Undirected (env : Env) (requestId : ℤ) (brokerId : String) (opts : ExecuteOpts)
    (profile : Option Profile) (db : Store) : Prop :=
  Manualtasks.pendingFor env db (taskOf env requestId brokerId opts profile) profile = none ∧
    ∃ message, Manualtasks.tasksDir env = .error message

/-- The manual task is pending or was created, and the failure recorded after it. -/
def Deferred (A : Reply → Prop) (env : Env) (requestId : ℤ) (brokerId : String)
    (opts : ExecuteOpts) (profile : Option Profile) (now : DateTime) (db₀ db : Store) : Prop :=
  ¬ Undirected env requestId brokerId opts profile db₀ ∧
    ∃ db₁, (db₁ = db₀ ∨ ∃ path,
        Manualtasks.Created env (taskOf env requestId brokerId opts profile) profile now path db₀
          db₁) ∧
      (db = db₁ ∧ CanFail A ∨
        ∃ payload, Recorded env.arch requestId .sendFailed payload now db₁ db)

/-- The outcome of a web form was recorded, unless a statement failed or there is nowhere to put
the manual task. -/
def Filed (A : Reply → Prop) (env : Env) (requestId : ℤ) (brokerId : String) (opts : ExecuteOpts)
    (profile : Option Profile) (now : DateTime) (db₀ db : Store) : Prop :=
  if previewed opts brokerId then
    db = db₀ ∧ CanFail A ∨ ∃ payload, Recorded env.arch requestId .sent payload now db₀ db
  else
    db = db₀ ∧ (CanFail A ∨ Undirected env requestId brokerId opts profile db₀) ∨
      Deferred A env requestId brokerId opts profile now db₀ db

/-- A task without a snapshot needs only the directory. -/
theorem artifactPath_taskOf (env : Env) (requestId : ℤ) (brokerId : String) (opts : ExecuteOpts)
    (profile : Option Profile) (now : DateTime) :
    Manualtasks.artifactPath env (taskOf env requestId brokerId opts profile) profile now =
      (Manualtasks.tasksDir env).map fun _ => "" := by
  unfold Manualtasks.artifactPath
  cases Manualtasks.tasksDir env with
  | ok dir => rfl
  | error e => rfl

theorem executeWebFormRequest_spec (env : Env) {requestId : ℤ} {request : RemovalRequest}
    (opts : ExecuteOpts) (profile : Option Profile) (now : DateTime) (db₀ : Store)
    (tr₀ : List Mail) (hreq : db₀.request requestId = some request) :
    Triple A (fun db tr => db = db₀ ∧ tr = tr₀)
      (executeWebFormRequest env requestId request.brokerId opts (.ok profile) now)
      fun _ db tr => tr = tr₀ ∧ Filed A env requestId request.brokerId opts profile now db₀ db := by
  have hex := request_exists hreq
  unfold executeWebFormRequest Filed
  simp only [get_success, get_taskId, Option.bind_some, asBool, Option.getD_some, Option.all_none]
  cases hpre : previewed opts request.brokerId with
  | true =>
    simp only [if_true]
    refine Triple.bind (record_spec env _ db₀ tr₀ _ now hex (by simp))
      (fun a => Triple.pure fun db tr h => ?_) (fun e db tr h => ?_)
    · exact ⟨h.1, h.2.imp_right fun h => ⟨_, h⟩⟩
    · exact ⟨h.1, h.2.imp_right fun h => ⟨_, h⟩⟩
  | false =>
    simp only [Bool.false_eq_true, if_false, if_true]
    refine Triple.bind (R := fun r db tr => tr = tr₀ ∧ match r with
        | .ok _ => ¬ Undirected env requestId request.brokerId opts profile db₀ ∧
            (db = db₀ ∨ ∃ path, Manualtasks.Created env
              (taskOf env requestId request.brokerId opts profile) profile now path db₀ db)
        | .error _ => db = db₀ ∧
            (CanFail A ∨ Undirected env requestId request.brokerId opts profile db₀))
      (Triple.mapError ((Manualtasks.create_spec env _ profile now db₀ tr₀).conseq
        (fun db tr h => h) fun r db tr h => ⟨h.1, ?_⟩))
      (fun task => ?_) (fun e db tr h => ⟨h.1, Or.inl h.2⟩)
    · cases r with
      | ok task =>
        rcases h.2 with ⟨row, hrow, hdb⟩ | ⟨-, path, hpath, hcreated⟩
        · refine ⟨fun hund => ?_, Or.inl hdb⟩
          cases hrow.symm.trans hund.1
        · refine ⟨fun hund => ?_, Or.inr ⟨path, hcreated⟩⟩
          obtain ⟨-, message, hdir⟩ := hund
          rw [← taskOf, artifactPath_taskOf, hdir] at hpath
          cases hpath
      | error e =>
        obtain ⟨-, hdb, hfail | hmissing | ⟨hpending, message, hpath⟩⟩ := h
        · exact ⟨hdb, Or.inl hfail⟩
        · refine absurd (fun id hid => ?_) hmissing
          cases hid
          exact hex
        · refine ⟨hdb, Or.inr ⟨hpending, ?_⟩⟩
          rw [← taskOf, artifactPath_taskOf] at hpath
          cases hdir : Manualtasks.tasksDir env with
          | ok dir => rw [hdir] at hpath; cases hpath
          | error e => exact ⟨e, rfl⟩
    · refine Triple.ghost fun db₁ tr₁ h => ?_
      obtain ⟨rfl, hdirected, hcreated⟩ := h
      have hreq₁ : db₁.requests = db₀.requests := by
        rcases hcreated with rfl | ⟨path, hcreated⟩
        · rfl
        · exact (OnlyTouches.created rfl hcreated).requests_eq
      have hex₁ : (db₁.requests.find requestId).isSome := by rw [hreq₁]; exact hex
      refine Triple.bind (R := fun r db tr => (db = db₁ ∧ tr = tr₁) ∧ ∃ answer, r = .ok answer)
        (Triple.pure fun db tr h => ⟨h, _, rfl⟩) (fun answer => ?_)
        (fun e db tr h => by obtain ⟨-, answer, h⟩ := h; cases h)
      refine Triple.bind ((record_spec env _ db₁ tr₁ _ now hex₁ (by simp)).conseq
        (fun db tr h => h.1) fun r db tr h => h) (fun a => Triple.pure fun db tr h => ?_)
        (fun e db tr h => ?_)
      · exact ⟨h.1, Or.inr ⟨hdirected, db₁, hcreated, h.2.imp_right fun h => ⟨_, h⟩⟩⟩
      · exact ⟨h.1, Or.inr ⟨hdirected, db₁, hcreated, h.2.imp_right fun h => ⟨_, h⟩⟩⟩

/-! ### One request -/

/-- A run of the request has nothing to hand over and nothing to file. -/
structure Idle (db : Store) (requestId : ℤ) (opts : ExecuteOpts) (source : ProfileSource) :
    Prop where
  mail : ∀ request profile sender, HandsOver db requestId opts source request profile →
    opts.emailSender ≠ some sender
  form : ∀ request profile, db.request requestId = some request →
    channelOf request = "web_form" → source ≠ .ok profile

/-- What a run of a request can do. -/
def Executed (A : Reply → Prop) (env : Env) (requestId : ℤ) (opts : ExecuteOpts)
    (source : ProfileSource) (now : DateTime) (db₀ : Store) (tr₀ : List Mail) (db : Store)
    (tr : List Mail) : Prop :=
  db = db₀ ∧ tr = tr₀ ∧ (CanFail A ∨ Idle db₀ requestId opts source) ∨
    Mailed A env requestId opts source now db₀ tr₀ db tr ∨
    ∃ request profile, db₀.request requestId = some request ∧ channelOf request = "web_form" ∧
      source = .ok profile ∧ tr = tr₀ ∧
      Filed A env requestId request.brokerId opts profile now db₀ db

theorem executeEmailRequest_spec (env : Env) {requestId : ℤ} {request : RemovalRequest}
    (opts : ExecuteOpts) (source : ProfileSource) (now : DateTime) (db₀ : Store) (tr₀ : List Mail)
    (hreq : db₀.request requestId = some request) (hchannel : channelOf request ≠ "web_form") :
    Triple A (fun db tr => db = db₀ ∧ tr = tr₀)
      (executeEmailRequest env request (lastPayload db₀ requestId) opts source now)
      fun _ db tr => Executed A env requestId opts source now db₀ tr₀ db tr := by
  have hform : ∀ r (profile : Option Profile), db₀.request requestId = some r →
      channelOf r = "web_form" → source ≠ .ok profile := by
    intro r profile hr hc
    rw [hreq] at hr
    cases hr
    exact absurd hc hchannel
  have hidle : (∀ r profile sender, HandsOver db₀ requestId opts source r profile →
      opts.emailSender ≠ some sender) → ∀ db tr, db = db₀ ∧ tr = tr₀ →
      Executed A env requestId opts source now db₀ tr₀ db tr := fun hmail db tr h =>
    Or.inl ⟨h.1, h.2, Or.inr ⟨hmail, hform⟩⟩
  unfold executeEmailRequest
  match source with
  | .error message =>
    exact Triple.fail (hidle fun r profile sender h => by cases h.source_eq)
  | .ok none => exact Triple.fail (hidle fun r profile sender h => by cases h.source_eq)
  | .ok (some profile) =>
    by_cases hmissing : missingFields profile (requiredFields (lastPayload db₀ requestId)) = []
    · simp only [hmissing, ne_eq, not_true_eq_false, if_false]
      cases hdry : opts.dryRun with
      | true =>
        rw [if_pos rfl]
        refine Triple.pure (hidle fun r profile sender h => ?_)
        rw [h.live] at hdry
        cases hdry
      | false =>
        rw [if_neg (by simp)]
        cases hsender : opts.emailSender with
        | none =>
          refine Triple.fail (hidle fun r profile sender h => ?_)
          rw [hsender]
          simp
        | some sender =>
          refine (sendMail_spec env (lastPayload db₀ requestId) opts.account profile sender now db₀
            tr₀ hreq).conseq (fun db tr h => h) fun r db tr h => Or.inr (Or.inl ?_)
          exact ⟨request, profile, sender, ⟨hreq, hchannel, hdry, rfl, hmissing⟩, hsender, h⟩
    · simp only [ne_eq, hmissing, not_false_eq_true, if_true]
      refine Triple.fail (hidle fun r p sender h => ?_)
      cases h.source_eq
      exact absurd h.fields_eq hmissing

theorem executeRequest_spec (env : Env) (requestId : ℤ) (opts : ExecuteOpts)
    (source : ProfileSource) (now : DateTime) (db₀ : Store) (tr₀ : List Mail) :
    Triple A (fun db tr => db = db₀ ∧ tr = tr₀) (executeRequest env requestId opts source now)
      fun _ db tr => Executed A env requestId opts source now db₀ tr₀ db tr := by
  unfold executeRequest
  refine Triple.bind (R := fun r db tr => db = db₀ ∧ tr = tr₀ ∧ match r with
      | .ok request => request = db₀.request requestId
      | .error _ => CanFail A)
    (Triple.mapError (Triple.query ?_ ?_)) (fun request => ?_)
    (fun e db tr h => Or.inl ⟨h.1, h.2.1, Or.inl h.2.2⟩)
  · rintro r db tr - ⟨rfl, rfl⟩
    exact ⟨rfl, rfl, rfl⟩
  · rintro r db tr e hr ⟨rfl, rfl⟩ he
    exact ⟨rfl, rfl, r, e, hr, he⟩
  refine Triple.ghost fun db₁ tr₁ h => ?_
  obtain ⟨rfl, rfl, hrequest⟩ := h
  replace hrequest : db₁.request requestId = request := hrequest.symm
  cases request with
  | none =>
    refine Triple.fail fun db tr h => Or.inl ⟨h.1, h.2, Or.inr ⟨?_, ?_⟩⟩
    · intro r profile sender h
      have := h.request_eq
      rw [hrequest] at this
      cases this
    · intro r profile h
      rw [hrequest] at h
      cases h
  | some request =>
    by_cases hchannel : channelOf request = "web_form"
    · simp only [hchannel, if_true]
      cases source with
      | error message =>
        refine Triple.fail fun db tr h => Or.inl ⟨h.1, h.2, Or.inr ⟨?_, ?_⟩⟩
        · intro r profile sender h
          cases h.source_eq
        · intro r profile h hc hsource
          cases hsource
      | ok profile =>
        refine (executeWebFormRequest_spec env opts profile now db₁ tr₁ hrequest).conseq
          (fun db tr h => h) fun r db tr h => Or.inr (Or.inr ?_)
        exact ⟨request, profile, hrequest, hchannel, rfl, h⟩
    · simp only [hchannel, if_false]
      refine Triple.bind (R := fun r db tr => db = db₁ ∧ tr = tr₁ ∧ match r with
          | .ok events => events = db₁.replayed requestId
          | .error _ => CanFail A)
        (Triple.mapError (Triple.query ?_ ?_)) (fun events => ?_)
        (fun e db tr h => Or.inl ⟨h.1, h.2.1, Or.inl h.2.2⟩)
      · rintro r db tr - ⟨rfl, rfl⟩
        refine ⟨rfl, rfl, ?_⟩
        simp [Except.mapError, Store.replayed, Store.replayRows, decodeReplayEvent]
      · rintro r db tr e hr ⟨rfl, rfl⟩ he
        exact ⟨rfl, rfl, r, e, hr, he⟩
      · refine Triple.ghost fun db₂ tr₂ h => ?_
        obtain ⟨rfl, rfl, rfl⟩ := h
        exact executeEmailRequest_spec env opts source now db₂ tr₂ hrequest hchannel

/-- A run of a request touches only that request. -/
theorem Executed.onlyTouches {env : Env} {requestId : ℤ} {opts : ExecuteOpts}
    {source : ProfileSource} {now : DateTime} {db₀ db : Store} {tr₀ tr : List Mail}
    (h : Executed A env requestId opts source now db₀ tr₀ db tr) :
    OnlyTouches requestId (Timeutil.formatSql now) db₀ db := by
  rcases h with ⟨rfl, -⟩ | ⟨request, profile, sender, hands, -, -, ⟨rfl, -⟩ | hanswered⟩ |
    ⟨request, profile, -, -, -, -, hfiled⟩
  · exact OnlyTouches.refl ..
  · exact OnlyTouches.refl ..
  · unfold Answered at hanswered
    rw [request_id hands.request_eq] at hanswered
    split at hanswered
    · exact OnlyTouches.recorded hanswered
    · exact OnlyTouches.recorded hanswered
  · unfold Filed at hfiled
    split_ifs at hfiled
    · rcases hfiled with ⟨rfl, -⟩ | ⟨payload, hrecorded⟩
      · exact OnlyTouches.refl ..
      · exact OnlyTouches.recorded hrecorded
    · rcases hfiled with ⟨rfl, -⟩ | ⟨-, db₁, hcreated, hend⟩
      · exact OnlyTouches.refl ..
      · have h₁ : OnlyTouches requestId (Timeutil.formatSql now) db₀ db₁ := by
          rcases hcreated with rfl | ⟨path, hcreated⟩
          · exact OnlyTouches.refl ..
          · exact OnlyTouches.created rfl hcreated
        rcases hend with ⟨rfl, -⟩ | ⟨payload, hrecorded⟩
        · exact h₁
        · exact h₁.trans (OnlyTouches.recorded hrecorded)

/-! ### Batches -/

/-- The requests a campaign selects; the engine orders the ones created in the same second. -/
def batchOf (db : Store) (campaignId : String) (batchSize : ℤ) (rank : ℤ → ℕ) :
    List RemovalRequestRow :=
  paginate (some (clampBatch batchSize)) none
    (((db.requests.rows.map db.joined).filter (batchOptions campaignId batchSize).admits).insertionSort
      (CreatedLe rank))

/-- Run the requests of a batch, one after the other. -/
def executeBatch (env : Env) (opts : ExecuteOpts) (source : ProfileSource) (now : DateTime)
    (batch : List RemovalRequestRow) : Db Store Mail ExecuteError (List Map) :=
  forEach (fun (request : RemovalRequestRow) => do
    let outcome ← attempt (executeRequest env request.id opts source now)
    return captured request.id outcome) batch

/-- A campaign stops at a failed query, or runs its batch. -/
theorem executeCampaign_cases (env : Env) (campaignId : String) (opts : ExecuteOpts)
    (source : ProfileSource) (batchSize : ℤ) (now : DateTime) (c : Conn Store Mail) :
    ((executeCampaign env campaignId opts source batchSize now c).2.db = c.db ∧
      (executeCampaign env campaignId opts source batchSize now c).2.trace = c.trace ∧
      ∃ n, ¬ Faultless (c.replies n)) ∨
    (executeCampaign env campaignId opts source batchSize now c).2 =
      (executeBatch env opts source now
        (batchOf c.db campaignId batchSize (c.replies 1).rank) c.next.next).2 := by
  unfold executeCampaign countRemovalRequests listRemovalRequests
  cases h₀ : (c.replies 0).error with
  | some e =>
    rw [bind_run_error (mapError_query_run_error h₀)]
    exact Or.inl ⟨rfl, rfl, 0, fun h => by rw [Faultless, h₀] at h; cases h⟩
  | none =>
    rw [bind_run_ok (mapError_query_run_ok h₀)]
    cases h₁ : (c.replies 1).error with
    | some e =>
      rw [bind_run_error (mapError_query_run_error (c := c.next) h₁)]
      exact Or.inl ⟨rfl, rfl, 1, fun h => by rw [Faultless, h₁] at h; cases h⟩
    | none =>
      rw [bind_run_ok (mapError_query_run_ok (c := c.next) h₁)]
      refine Or.inr ?_
      -- what follows the batch only builds the result
      change ((executeBatch env opts source now
        (batchOf c.db campaignId batchSize (c.replies 1).rank) >>= _) c.next.next).2 = _
      cases hrun : executeBatch env opts source now
          (batchOf c.db campaignId batchSize (c.replies 1).rank) c.next.next with
      | mk r c' =>
        cases r with
        | ok results => rw [bind_run_ok hrun]; rfl
        | error e => rw [bind_run_error hrun]

/-- An invariant of the requests run so far holds of the batch. -/
theorem executeBatch_spec (env : Env) (opts : ExecuteOpts) (source : ProfileSource)
    (now : DateTime) (batch : List RemovalRequestRow)
    (I : List RemovalRequestRow → Store → List Mail → Prop)
    (hstep : ∀ pre row post, batch = pre ++ row :: post → ∀ db₀ tr₀, I pre db₀ tr₀ →
      ∀ db tr, Executed A env row.id opts source now db₀ tr₀ db tr → I (pre ++ [row]) db tr) :
    Triple A (I []) (executeBatch env opts source now batch) fun _ db tr => I batch db tr := by
  refine (Triple.forEach (fun pre _ db tr => I pre db tr) (fun _ _ _ => False)
    fun pre row post _ hbatch => ?_).conseq (fun db tr h => h) fun r db tr h => ?_
  · refine Triple.ghost fun db₀ tr₀ hI => ?_
    refine Triple.bind (R := fun r db tr => I (pre ++ [row]) db tr ∧ ∃ outcome, r = .ok outcome)
      (Triple.attempt ((executeRequest_spec env row.id opts source now db₀ tr₀).conseq
        (fun db tr h => h) fun r db tr h => ⟨?_, r, rfl⟩))
      (fun outcome => Triple.pure fun db tr h => h.1) (fun e db tr h => ?_)
    · exact hstep pre row post hbatch db₀ tr₀ hI db tr h
    · obtain ⟨-, outcome, h⟩ := h
      cases h
  · cases r with
    | ok results => exact h
    | error e => exact absurd h id

end EraseMe.Campaign
