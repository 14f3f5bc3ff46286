import EraseMe.Campaign.DryRun
import EraseMe.Campaign.Plan

/-!
# Each request is mailed at most once

A run of plans and executions hands at most one mail over for each request, and no request with a
mail is selected again (`sent_at_most_once`).  The answer of the sender is recorded at an instant
whose text sorts after the events before it, so the fold ends in a status other than `PLANNED`, and
later calls leave the states of other requests alone.

It is the recorded event that takes a request out of the batches.  An event in the zero second is
skipped by the fold, one with a message id nested too deep is skipped by the loader, and outside
the years `0..9999` the texts do not sort as the instants: in each case the request stays planned
and is mailed again (`sent_twice`).
-/

namespace EraseMe.Campaign

open Chrono Identity Json Registry Sqlite Storage

/-! ### Runs -/

/-- One call of a run. -/
inductive Call
  | plan (brokers : List Broker) (identityHash : String) (opts : PlanOpts)
  | execute (campaignId : String) (opts : ExecuteOpts) (source : ProfileSource) (batchSize : ℤ)

/-- The connection after a call; an error of the call does not end the run. -/
def Call.run (env : Env) (now : DateTime) (call : Call) (c : Conn Store Mail) : Conn Store Mail :=
  match call with
  | .plan brokers identityHash opts => (planCampaign env brokers identityHash opts now c).2
  | .execute campaignId opts source batchSize =>
      (executeCampaign env campaignId opts source batchSize now c).2

/-- The connection after some calls, each at its instant. -/
def runCalls (env : Env) (steps : List (DateTime × Call)) (c : Conn Store Mail) :
    Conn Store Mail :=
  steps.foldl (fun c step => step.2.run env step.1 c) c

/-- Every message id the sender returns can be stored and read back. -/
def Shallow (sender : EmailSender) : Prop :=
  ∀ earlier endpoint subject body result, sender earlier endpoint subject body = .ok result →
    depth ((result.get "message_id").getD .null) < maxDepth

/-- The events an execution appends are replayed. -/
def Call.Replayable (now : DateTime) : Call → Prop
  | .plan .. => True
  | .execute _ opts _ _ => isGoZeroTime now.trunc = false ∧
      ∀ sender, opts.emailSender = some sender → Shallow sender

/-- No request has two mails, and none with a mail is in a batch. -/
def AtMostOnce (db : Store) (tr : List Mail) : Prop :=
  (tr.map Mail.requestId).Nodup ∧ ∀ mail ∈ tr, ∀ campaignId batchSize rank,
    ∀ row ∈ batchOf db campaignId batchSize rank, row.id ≠ mail.requestId

/-! ### Batches -/

section Batches

variable {db : Store} {campaignId : String} {batchSize : ℤ} {rank : ℤ → ℕ}

theorem batchOf_sublist : (batchOf db campaignId batchSize rank).Sublist
    (((db.requests.rows.map db.joined).filter
      (batchOptions campaignId batchSize).admits).insertionSort (CreatedLe rank)) := by
  unfold batchOf paginate
  split
  · split_ifs
    · exact List.drop_sublist _ _
    · exact (List.take_sublist _ _).trans (List.drop_sublist _ _)
  · exact List.drop_sublist _ _

theorem mem_batchOf {row : RemovalRequestRow} (h : row ∈ batchOf db campaignId batchSize rank) :
    row ∈ db.requests.rows.map db.joined ∧
      (db.state row.id).map StateColumns.currentStatus = some "PLANNED" := by
  have hmem := batchOf_sublist.subset h
  rw [List.mem_insertionSort, List.mem_filter] at hmem
  obtain ⟨hrow, hadmits⟩ := hmem
  refine ⟨hrow, ?_⟩
  obtain ⟨r, -, rfl⟩ := List.mem_map.1 hrow
  simp only [ListRemovalRequestsOptions.admits, batchOptions, Option.all_some, Option.all_none,
    decide_eq_true_eq] at hadmits
  exact hadmits.2.1

theorem nodup_batchOf : ((batchOf db campaignId batchSize rank).map fun row => row.id).Nodup := by
  have hids : ((db.requests.rows.map db.joined).map fun row => row.id).Nodup := by
    rw [List.map_map]
    exact List.pairwise_map.2 (db.requests.ascending.imp fun h => ne_of_lt h)
  have hperm := (List.perm_insertionSort (CreatedLe rank) ((db.requests.rows.map db.joined).filter
    (batchOptions campaignId batchSize).admits)).map fun row => row.id
  refine (batchOf_sublist.map _).nodup (hperm.nodup_iff.2 ?_)
  exact (List.filter_sublist.map _).nodup hids

end Batches

/-! ### The invariant -/

/-- No event sorts after the text, no request has two mails, and each request with a mail has left
the status `PLANNED`. -/
structure Settled (text : String) (db : Store) (tr : List Mail) : Prop where
  texts : ∀ row ∈ db.events.rows, row.2.occurredAt ≤ text
  nodup : (tr.map Mail.requestId).Nodup
  known : ∀ mail ∈ tr, mail.requestId ≤ db.requests.seq
  left : ∀ mail ∈ tr,
    (db.state mail.requestId).map StateColumns.currentStatus ≠ some "PLANNED"

variable {env : Env} {text : String} {db db₀ : Store} {tr tr₀ : List Mail} {now : DateTime}

theorem Settled.mono (h : Settled text db tr) {text' : String} (hle : text ≤ text') :
    Settled text' db tr :=
  ⟨fun row hrow => (h.texts row hrow).trans hle, h.nodup, h.known, h.left⟩

theorem Settled.atMostOnce (h : Settled text db tr) : AtMostOnce db tr := by
  refine ⟨h.nodup, fun mail hmail campaignId batchSize rank row hrow heq => ?_⟩
  have hplanned := (mem_batchOf hrow).2
  rw [heq] at hplanned
  exact h.left mail hmail hplanned

/-- A request that is touched and has no mail does not matter. -/
theorem Settled.touched (h : Settled (Timeutil.formatSql now) db₀ tr) {requestId : ℤ}
    (htouch : OnlyTouches requestId (Timeutil.formatSql now) db₀ db)
    (hfresh : ∀ mail ∈ tr, mail.requestId ≠ requestId) :
    Settled (Timeutil.formatSql now) db tr := by
  refine ⟨fun row hrow => ?_, h.nodup, fun mail hmail => ?_, fun mail hmail => ?_⟩
  · rcases htouch.mem_rows hrow with hrow | htext
    · exact h.texts row hrow
    · exact le_of_eq htext
  · rw [htouch.requests_eq]
    exact h.known mail hmail
  · rw [htouch.state_eq _ (hfresh mail hmail)]
    exact h.left mail hmail

/-- A recorded event that is replayed last sets the status. -/
theorem status_of_recorded {requestId : ℤ} {eventType : EventType} {payload : Map} {status : String}
    (h : Recorded env.arch requestId eventType payload now db₀ db)
    (htexts : ∀ row ∈ db₀.events.rows, row.2.occurredAt ≤ Timeutil.formatSql now)
    (hzero : isGoZeroTime now.trunc = false) (hdecodes : decodes (.object payload) = true)
    (hstatus : statusFor eventType = some status) :
    (db.state requestId).map StateColumns.currentStatus = some status := by
  obtain ⟨recordedAt, writtenAt, rfl⟩ := h
  have ht : ∀ v, eventType ≠ .unknown v := by
    rintro v rfl
    cases hstatus
  have hreplayed : (db₀.withEvent
      (eventColumns requestId eventType payload .system now recordedAt)).replayed requestId =
        db₀.replayed requestId ++ [appendedEvent (db₀.events.seq + 1) requestId eventType payload
          .system now recordedAt] :=
    replayed_eventColumns_last recordedAt ht (by simp) hdecodes fun a ha =>
      htexts a (mem_eventRows.1 ha).1
  have hskip : ¬ (appendedEvent (db₀.events.seq + 1) requestId eventType payload .system now
      recordedAt).Skipped := by
    rintro (h | h)
    · exact ht _ h
    · change isGoZeroTime now.trunc = true at h
      rw [hzero] at h
      cases h
  have hsome : (statusFor eventType).isSome := by
    rw [hstatus]
    rfl
  rw [projected_state_self, hreplayed, Option.map_some, stateColumns, foldEvents_currentStatus,
    lastTransition_append, if_pos ⟨hskip, hsome⟩]
  change some (((some eventType).bind statusFor).getD "PLANNED") = some status
  rw [Option.bind_some, hstatus, Option.getD_some]

theorem decodes_sentPayload {request : RemovalRequest} {payload result : Map} {account : String}
    {profile : Profile} (h : depth ((result.get "message_id").getD .null) < maxDepth) :
    decodes (.object (sentPayload env request payload account profile result)) = true := by
  simp only [decodes, sentPayload, depth, depthFields, decide_eq_true_eq]
  omega

/-- Running a request without a mail keeps the invariant, and hands over at most its mail. -/
theorem Settled.executed (h : Settled (Timeutil.formatSql now) db₀ tr₀) {requestId : ℤ}
    {opts : ExecuteOpts} {source : ProfileSource} (hzero : isGoZeroTime now.trunc = false)
    (hsender : ∀ sender, opts.emailSender = some sender → Shallow sender)
    (hfresh : ∀ mail ∈ tr₀, mail.requestId ≠ requestId)
    (hrun : Executed Faultless env requestId opts source now db₀ tr₀ db tr) :
    Settled (Timeutil.formatSql now) db tr ∧
      ∀ mail ∈ tr, mail ∈ tr₀ ∨ mail.requestId = requestId := by
  have htouch := hrun.onlyTouches
  rcases hrun with ⟨-, rfl, -⟩ | ⟨request, profile, sender, hands, hsome, rfl, hend⟩ |
    ⟨request, profile, -, -, -, rfl, -⟩
  · exact ⟨h.touched htouch hfresh, fun mail hmail => Or.inl hmail⟩
  · have hid := request_id hands.request_eq
    have hmail : (mailOf request (lastPayload db₀ requestId) profile).requestId = requestId := hid
    have hsettled := h.touched htouch hfresh
    have hstatus : (db.state requestId).map StateColumns.currentStatus ≠ some "PLANNED" := by
      rcases hend with ⟨-, hfail⟩ | hanswered
      · exact absurd hfail not_canFail_faultless
      · unfold Answered at hanswered
        rw [hid] at hanswered
        split at hanswered
        · next result hresult =>
          rw [status_of_recorded hanswered h.texts hzero
            (decodes_sentPayload (hsender sender hsome _ _ _ _ _ hresult)) rfl]
          simp
        · rw [status_of_recorded hanswered h.texts hzero rfl rfl]
          simp
    have hknown : requestId ≤ db.requests.seq := by
      rw [htouch.requests_eq]
      exact Table.le_seq_of_find (request_exists hands.request_eq)
    refine ⟨⟨hsettled.texts, ?_, ?_, ?_⟩, ?_⟩
    · rw [List.map_append, List.map_singleton, hmail, List.nodup_append]
      refine ⟨h.nodup, List.nodup_singleton _, fun a ha b hb heq => ?_⟩
      obtain ⟨mail, hmem, rfl⟩ := List.mem_map.1 ha
      rw [List.mem_singleton.1 hb] at heq
      exact hfresh mail hmem heq
    · intro mail hmem
      rcases List.mem_append.1 hmem with hmem | hmem
      · exact hsettled.known mail hmem
      · rw [List.mem_singleton.1 hmem, hmail]
        exact hknown
    · intro mail hmem
      rcases List.mem_append.1 hmem with hmem | hmem
      · exact hsettled.left mail hmem
      · rw [List.mem_singleton.1 hmem, hmail]
        exact hstatus
    · intro mail hmem
      rcases List.mem_append.1 hmem with hmem | hmem
      · exact Or.inl hmem
      · rw [List.mem_singleton.1 hmem]
        exact Or.inr hmail
  · exact ⟨h.touched htouch hfresh, fun mail hmail => Or.inl hmail⟩

/-! ### Calls and runs -/

theorem Settled.planned (h : Settled (Timeutil.formatSql now) db₀ tr) {identityHash : String}
    {opts : PlanOpts} {selected : Broker × SelectedChannel}
    (hplanned : Planned env identityHash opts now selected db₀ db) :
    Settled (Timeutil.formatSql now) db tr := by
  obtain ⟨createdAt, hrecorded⟩ := hplanned
  have hrow : Settled (Timeutil.formatSql now)
      (db₀.withRequest (plannedColumns identityHash opts selected createdAt)) tr :=
    ⟨h.texts, h.nodup, fun mail hmail => (h.known mail hmail).trans (by simp [Store.withRequest]),
      h.left⟩
  refine hrow.touched (OnlyTouches.recorded hrecorded) fun mail hmail heq => ?_
  have := h.known mail hmail
  omega

theorem settled_plan (env : Env) (brokers : List Broker) (identityHash : String) (opts : PlanOpts)
    (now : DateTime) {c : Conn Store Mail} (hc : ∀ n, Faultless (c.replies n))
    (h : Settled (Timeutil.formatSql now) c.db c.trace) :
    (∀ n, Faultless ((planCampaign env brokers identityHash opts now c).2.replies n)) ∧
      Settled (Timeutil.formatSql now) (planCampaign env brokers identityHash opts now c).2.db
        (planCampaign env brokers identityHash opts now c).2.trace := by
  have hspec := planCampaign_spec (A := Faultless) env brokers identityHash opts now
    (fun _ db tr => Settled (Timeutil.formatSql now) db tr)
    (fun db tr campaigns h => ⟨h.texts, h.nodup, h.known, h.left⟩)
    (fun done selected request db₀ tr db _ h _ _ hplanned => h.planned hplanned)
  obtain ⟨hc', hpost⟩ := hspec c hc h
  refine ⟨hc', ?_⟩
  generalize planCampaign env brokers identityHash opts now c = r at hpost
  obtain ⟨r, c'⟩ := r
  cases r with
  | ok result => exact hpost
  | error e => exact absurd hpost not_canFail_faultless

theorem settled_execute (env : Env) (campaignId : String) {opts : ExecuteOpts}
    (source : ProfileSource) (batchSize : ℤ) {now : DateTime} {c : Conn Store Mail}
    (hzero : isGoZeroTime now.trunc = false)
    (hsender : ∀ sender, opts.emailSender = some sender → Shallow sender)
    (hc : ∀ n, Faultless (c.replies n)) (h : Settled (Timeutil.formatSql now) c.db c.trace) :
    (∀ n, Faultless
      ((executeCampaign env campaignId opts source batchSize now c).2.replies n)) ∧
      Settled (Timeutil.formatSql now)
        (executeCampaign env campaignId opts source batchSize now c).2.db
        (executeCampaign env campaignId opts source batchSize now c).2.trace := by
  rcases executeCampaign_cases env campaignId opts source batchSize now c with
    ⟨-, -, n, hn⟩ | hbatch
  · exact absurd (hc n) hn
  rw [hbatch]
  set batch := batchOf c.db campaignId batchSize (c.replies 1).rank with hdef
  -- the mails of the batch so far are those of its requests so far
  have hspec := executeBatch_spec (A := Faultless) env opts source now batch
    (fun pre db tr => Settled (Timeutil.formatSql now) db tr ∧
      ∀ mail ∈ tr, mail ∈ c.trace ∨ mail.requestId ∈ pre.map fun row => row.id) ?_
  · obtain ⟨hc', hpost, -⟩ := hspec c.next.next (fun n => hc (n + 2))
      ⟨h, fun mail hmail => Or.inl hmail⟩
    exact ⟨hc', hpost⟩
  · intro pre row post hsplit db₀ tr₀ hinv db tr hrun
    obtain ⟨hsettled, hmails⟩ := hinv
    have hrow : row ∈ batch := by rw [hsplit]; simp
    have hnodup : (batch.map fun row => row.id).Nodup := nodup_batchOf
    rw [hsplit, List.map_append, List.map_cons, List.nodup_append] at hnodup
    have hfresh : ∀ mail ∈ tr₀, mail.requestId ≠ row.id := by
      intro mail hmail heq
      rcases hmails mail hmail with hold | hpre
      · exact h.atMostOnce.2 mail hold _ _ _ row hrow heq.symm
      · rw [heq] at hpre
        exact hnodup.2.2 _ hpre row.id (by simp) rfl
    obtain ⟨hsettled', hmails'⟩ := hsettled.executed hzero hsender hfresh hrun
    refine ⟨hsettled', fun mail hmail => ?_⟩
    rw [List.map_append, List.map_singleton, List.mem_append, List.mem_singleton, ← or_assoc]
    rcases hmails' mail hmail with hmail | hid
    · exact Or.inl (hmails mail hmail)
    · exact Or.inr hid

theorem settled_run (env : Env) {step : DateTime × Call} {c : Conn Store Mail}
    (hreplay : step.2.Replayable step.1) (hc : ∀ n, Faultless (c.replies n))
    (h : Settled (Timeutil.formatSql step.1) c.db c.trace) :
    (∀ n, Faultless ((step.2.run env step.1 c).replies n)) ∧
      Settled (Timeutil.formatSql step.1) (step.2.run env step.1 c).db
        (step.2.run env step.1 c).trace := by
  obtain ⟨now, call⟩ := step
  cases call with
  | plan brokers identityHash opts =>
    exact settled_plan env brokers identityHash opts now hc h
  | execute campaignId opts source batchSize =>
    exact settled_execute env campaignId source batchSize hreplay.1 hreplay.2 hc h

/-- A run at texts that do not decrease keeps the invariant. -/
theorem settled_runCalls (env : Env) (steps : List (DateTime × Call)) {text : String}
    {c : Conn Store Mail} (hreplay : ∀ step ∈ steps, step.2.Replayable step.1)
    (hle : ∀ step ∈ steps, text ≤ Timeutil.formatSql step.1)
    (hmono : steps.Pairwise fun a b => Timeutil.formatSql a.1 ≤ Timeutil.formatSql b.1)
    (hc : ∀ n, Faultless (c.replies n)) (h : Settled text c.db c.trace) :
    ∃ text, Settled text (runCalls env steps c).db (runCalls env steps c).trace := by
  induction steps generalizing text c with
  | nil => exact ⟨text, h⟩
  | cons step steps ih =>
    rw [List.pairwise_cons] at hmono
    obtain ⟨hc', h'⟩ := settled_run env (hreplay step (by simp)) hc
      (h.mono (hle step (by simp)))
    exact ih (fun s hs => hreplay s (by simp [hs])) hmono.1 hmono.2 hc' h'

/-- Every run of plans and executions at non-decreasing instants of the years `0..9999`, from a
store whose events do not sort after them, mails each request at most once. -/
theorem sent_at_most_once (env : Env) (steps : List (DateTime × Call)) (c : Conn Store Mail)
    (htrace : c.trace = []) (hc : ∀ n, Faultless (c.replies n))
    (hold : ∀ row ∈ c.db.events.rows, ∀ step ∈ steps,
      row.2.occurredAt ≤ Timeutil.formatSql step.1)
    (hmono : steps.Pairwise fun a b => a.1 ≤ b.1)
    (hyears : ∀ step ∈ steps, FourDigitYear step.1)
    (hreplay : ∀ step ∈ steps, step.2.Replayable step.1) :
    AtMostOnce (runCalls env steps c).db (runCalls env steps c).trace := by
  have htexts : steps.Pairwise fun a b => Timeutil.formatSql a.1 ≤ Timeutil.formatSql b.1 := by
    refine List.Pairwise.imp_of_mem (fun {a b} ha hb h => ?_) hmono
    exact Timeutil.formatSql_mono (hyears a ha) (hyears b hb) h
  cases steps with
  | nil =>
    rw [runCalls, List.foldl_nil, htrace]
    exact ⟨List.nodup_nil, by simp⟩
  | cons step steps =>
    have hstart : Settled (Timeutil.formatSql step.1) c.db c.trace := by
      rw [htrace]
      exact ⟨fun row hrow => hold row hrow step (by simp), List.nodup_nil, by simp, by simp⟩
    have hle : ∀ s ∈ step :: steps, Timeutil.formatSql step.1 ≤ Timeutil.formatSql s.1 := by
      intro s hs
      rcases List.mem_cons.1 hs with rfl | hs
      · exact le_rfl
      · exact (List.pairwise_cons.1 htexts).1 s hs
    obtain ⟨text, h⟩ := settled_runCalls env (step :: steps) hreplay hle htexts hc hstart
    exact h.atMostOnce

/-! ### Two runs -/

/-- A profile with an address. -/
def jo : Profile := { fullName := "Jo Doe", emailAddresses := ["jo@example.org"] }

/-- Plan the broker once and run its campaign twice. -/
def executedTwice (planned executed : DateTime) (sender : EmailSender) : List (DateTime × Call) :=
  let execute := Call.execute "spring" { emailSender := some sender } (.ok (some jo)) 5
  [(planned, .plan [acmeMail] "" { campaignId := "spring" }), (executed, execute),
    (executed, execute)]

theorem executedTwice_pairwise {planned executed : DateTime} (h : planned ≤ executed)
    (sender : EmailSender) :
    (executedTwice planned executed sender).Pairwise fun a b => a.1 ≤ b.1 := by
  simp [executedTwice, h]

/-- A sender that accepts every mail under a message id. -/
def accepts (messageId : Json) : EmailSender := fun _ _ _ _ => .ok [("message_id", messageId)]

theorem sent_once_acmeMail :
    (runCalls homeEnv (executedTwice epoch epoch (accepts .null)) Store.fresh.connect).trace.map
        Mail.requestId = [1] ∧
      AtMostOnce
        (runCalls homeEnv (executedTwice epoch epoch (accepts .null)) Store.fresh.connect).db
        (runCalls homeEnv (executedTwice epoch epoch (accepts .null))
          Store.fresh.connect).trace := by
  refine ⟨by decide +kernel, ?_⟩
  have hnow : ∀ step ∈ executedTwice epoch epoch (accepts .null), step.1 = epoch := by
    simp [executedTwice]
  refine sent_at_most_once homeEnv _ _ rfl (fun _ => rfl) (fun row hrow => by cases hrow)
    (executedTwice_pairwise le_rfl _) ?_ ?_
  · intro step hstep
    rw [hnow step hstep]
    decide
  · intro step hstep
    have hshallow : Shallow (accepts .null) := by
      rintro earlier endpoint subject body result h
      cases h
      decide
    simp only [executedTwice, List.mem_cons, List.not_mem_nil, or_false] at hstep
    rcases hstep with rfl | rfl | rfl
    · trivial
    · exact ⟨by decide, fun sender h => by cases h; exact hshallow⟩
    · exact ⟨by decide, fun sender h => by cases h; exact hshallow⟩

/-- Arrays nested in one another. -/
def nested : ℕ → Json
  | 0 => .null
  | n + 1 => .array [nested n]

/-- A request stays planned and is mailed twice: in the zero second, over the end of the year 9999,
and with a message id nested as deep as a text can be. -/
theorem sent_twice :
    let zero := DateTime.ofSecs (-62135596800) (by decide)
    let lastSecond := DateTime.ofSecs 253402300799 (by decide)
    let nextSecond := DateTime.ofSecs 253402300800 (by decide)
    ∀ steps ∈ [executedTwice zero zero (accepts .null),
        executedTwice lastSecond nextSecond (accepts .null),
        executedTwice epoch epoch (accepts (nested maxDepth))],
      steps.Pairwise (fun a b => a.1 ≤ b.1) ∧
        (runCalls homeEnv steps Store.fresh.connect).trace.map Mail.requestId = [1, 1] ∧
        ¬ AtMostOnce (runCalls homeEnv steps Store.fresh.connect).db
          (runCalls homeEnv steps Store.fresh.connect).trace := by
  intro zero lastSecond nextSecond steps hsteps
  have htwice : (runCalls homeEnv steps Store.fresh.connect).trace.map Mail.requestId = [1, 1] := by
    simp only [List.mem_cons, List.not_mem_nil, or_false] at hsteps
    rcases hsteps with rfl | rfl | rfl
    · decide +kernel
    · decide +kernel
    · decide +kernel
  refine ⟨?_, htwice, fun h => ?_⟩
  · simp only [List.mem_cons, List.not_mem_nil, or_false] at hsteps
    rcases hsteps with rfl | rfl | rfl
    · exact executedTwice_pairwise le_rfl _
    · exact executedTwice_pairwise (by decide) _
    · exact executedTwice_pairwise le_rfl _
  · have := h.1
    rw [htwice] at this
    simp at this

end EraseMe.Campaign
