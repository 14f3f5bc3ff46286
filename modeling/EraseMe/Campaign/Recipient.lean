import EraseMe.Campaign.Outbox
import EraseMe.Storage.AppendOrder

/-!
# Who a planned request is mailed to

The executor addresses a mail from the payload of the last event of the log, not from the
`PLANNED` event.  Any event appended in between takes its place: a mail goes to the planned
endpoint, with the planned response time, exactly when the last payload still names them
(`Addressed`, `mailed_to_planned_iff`).  A note without an endpoint makes the recipient empty.
-/

namespace EraseMe.Campaign

open Chrono Identity Json Registry Sqlite Storage

/-- The response time an event row carries. -/
def storedDays (row : EventColumns) : Option Json :=
  match row.payloadJson with
  | .document (.object payload) => Map.get payload "expected_response_days"
  | _ => none

/-- The log has the `PLANNED` event of the selected channel. -/
def PlannedIn (db : Store) (requestId : ℤ) (selected : Broker × SelectedChannel)
    (now : DateTime) : Prop :=
  ∃ row ∈ db.events.rows, ∃ recordedAt, row.2 = eventColumns requestId .planned
    (plannedPayload selected.1 selected.2) .system now recordedAt

/-- Each mail for the request goes to the endpoint of the channel, and a `SENT` event of the
request beside it carries the response time of the channel. -/
def Faithful (requestId : ℤ) (channel : SelectedChannel) (mails : List Mail)
    (rows : List (ℤ × EventColumns)) : Prop :=
  ∀ mail ∈ mails, mail.requestId = requestId → mail.endpoint = channel.endpoint ∧
    ∀ row ∈ rows, row.2.requestId = requestId → row.2.eventType = "SENT" →
      storedDays row.2 = some (.int channel.expectedResponseDays)

/-- What a call added to the outbox and to the log is faithful to the channel. -/
def FaithfulRun (requestId : ℤ) (channel : SelectedChannel) (c c' : Conn Store Mail) : Prop :=
  Faithful requestId channel (c'.trace.drop c.trace.length)
    (c'.db.events.rows.drop c.db.events.rows.length)

/-- If a run hands a mail over, the last payload names the endpoint and the response time of the
channel. -/
def Addressed (db : Store) (requestId : ℤ) (opts : ExecuteOpts) (source : ProfileSource)
    (channel : SelectedChannel) : Prop :=
  ∀ request profile, HandsOver db requestId opts source request profile →
    endpointOf (lastPayload db requestId) = channel.endpoint ∧
      expectedDaysOf (lastPayload db requestId) = channel.expectedResponseDays

variable {A : Reply → Prop} {env : Env} {requestId : ℤ} {opts : ExecuteOpts}
  {source : ProfileSource} {now : DateTime} {db₀ db : Store} {tr₀ tr : List Mail}

/-! ### One request -/

theorem storedDays_sent (env : Env) (id : ℤ) (request : RemovalRequest) (payload result : Map)
    (account : String) (profile : Profile) (now recordedAt : DateTime) :
    storedDays (eventColumns id .sent (sentPayload env request payload account profile result)
      .system now recordedAt) = some (.int (expectedDaysOf payload)) := by
  simp only [storedDays, eventColumns, payloadText_eq, get_sortedMap]
  rfl

/-- What a run of a request adds is its own. -/
theorem Executed.added (h : Executed A env requestId opts source now db₀ tr₀ db tr) :
    ∃ mails rows, tr = tr₀ ++ mails ∧ db.events.rows = db₀.events.rows ++ rows ∧
      (∀ mail ∈ mails, mail.requestId = requestId) ∧ ∀ row ∈ rows, row.2.requestId = requestId := by
  obtain ⟨rows, hrows, hids⟩ := h.onlyTouches.rows_eq
  rcases h with ⟨-, rfl, -⟩ | ⟨request, profile, sender, hands, -, rfl, -⟩ |
    ⟨request, profile, -, -, -, rfl, -⟩
  · exact ⟨[], rows, by simp, hrows, by simp, fun row hrow => (hids row hrow).1⟩
  · refine ⟨_, rows, rfl, hrows, fun mail hmail => ?_, fun row hrow => (hids row hrow).1⟩
    rw [List.mem_singleton.1 hmail]
    exact request_id hands.request_eq
  · exact ⟨[], rows, by simp, hrows, by simp, fun row hrow => (hids row hrow).1⟩

theorem Executed.faithful (h : Executed A env requestId opts source now db₀ tr₀ db tr)
    {channel : SelectedChannel} (haddr : Addressed db₀ requestId opts source channel)
    {mails : List Mail} {rows : List (ℤ × EventColumns)} (htr : tr = tr₀ ++ mails)
    (hrows : db.events.rows = db₀.events.rows ++ rows) : Faithful requestId channel mails rows := by
  rcases h with ⟨-, htr', -⟩ | ⟨request, profile, sender, hands, -, htr', hend⟩ |
    ⟨request, profile, -, -, -, htr', -⟩
  · rw [htr', List.self_eq_append_right] at htr
    rw [htr]
    intro mail hmail
    cases hmail
  · obtain ⟨hendpoint, hdays⟩ := haddr request profile hands
    rw [htr', List.append_cancel_left_eq] at htr
    intro mail hmail _
    rw [← htr, List.mem_singleton] at hmail
    subst hmail
    refine ⟨hendpoint, fun row hrow _ hsent => ?_⟩
    rcases hend with ⟨rfl, -⟩ | hanswered
    · rw [List.self_eq_append_right] at hrows
      rw [hrows] at hrow
      cases hrow
    · unfold Answered at hanswered
      split at hanswered
      · obtain ⟨recordedAt, writtenAt, rfl⟩ := hanswered
        have hrow' := List.append_cancel_left hrows
        rw [← hrow', List.mem_singleton] at hrow
        rw [hrow, storedDays_sent, hdays]
      · obtain ⟨recordedAt, writtenAt, rfl⟩ := hanswered
        have hrow' := List.append_cancel_left hrows
        rw [← hrow', List.mem_singleton] at hrow
        rw [hrow] at hsent
        simp [eventColumns, EventType.asStr] at hsent
  · rw [htr', List.self_eq_append_right] at htr
    rw [htr]
    intro mail hmail
    cases hmail

/-- The sender that accepts every mail without a message id. -/
def acceptAll : EmailSender := fun _ _ _ _ => .ok []

/-- Without a failing statement, an accepted mail is sent as the last payload says. -/
theorem Executed.accepted (hA : ¬ CanFail A)
    (h : Executed A env requestId { opts with emailSender := some acceptAll } source now db₀ tr₀ db
      tr) {request : RemovalRequest} {profile : Profile}
    (hands : HandsOver db₀ requestId opts source request profile) :
    (∃ mail, tr = tr₀ ++ [mail] ∧ mail.requestId = requestId ∧
      mail.endpoint = endpointOf (lastPayload db₀ requestId)) ∧
    ∃ row, db.events.rows = db₀.events.rows ++ [row] ∧ row.2.requestId = requestId ∧
      row.2.eventType = "SENT" ∧
      storedDays row.2 = some (.int (expectedDaysOf (lastPayload db₀ requestId))) := by
  have hands' : HandsOver db₀ requestId { opts with emailSender := some acceptAll } source request
      profile := ⟨hands.request_eq, hands.channel_ne, hands.live, hands.source_eq, hands.fields_eq⟩
  rcases h with ⟨-, -, hfail | hidle⟩ | ⟨request', profile', sender, hands'', hsender, rfl, hend⟩ |
    ⟨request', profile', hreq, hform, -⟩
  · exact absurd hfail hA
  · exact absurd rfl (hidle.mail request profile acceptAll hands')
  · refine ⟨⟨_, rfl, request_id hands''.request_eq, rfl⟩, ?_⟩
    rcases hend with ⟨-, hfail⟩ | hanswered
    · exact absurd hfail hA
    · rw [← Option.some.inj hsender] at hanswered
      obtain ⟨recordedAt, writtenAt, rfl⟩ := hanswered
      exact ⟨_, rfl, request_id hands''.request_eq, rfl, storedDays_sent ..⟩
  · rw [hands.request_eq] at hreq
    cases hreq
    exact absurd hform hands.channel_ne

/-! ### Batches -/

/-- What the requests of a batch added so far. -/
structure Added (db₀ : Store) (tr₀ : List Mail) (done : List ℤ) (db : Store) (tr : List Mail)
    (mails : List Mail) (rows : List (ℤ × EventColumns)) : Prop where
  trace_eq : tr = tr₀ ++ mails
  rows_eq : db.events.rows = db₀.events.rows ++ rows
  requests_eq : db.requests = db₀.requests
  mails_done : ∀ mail ∈ mails, mail.requestId ∈ done
  rows_done : ∀ row ∈ rows, row.2.requestId ∈ done

variable {done : List ℤ} {db₁ : Store} {tr₁ : List Mail} {mails : List Mail}
  {rows : List (ℤ × EventColumns)}

theorem Added.step (h : Added db₀ tr₀ done db tr mails rows)
    (hrun : Executed A env requestId opts source now db tr db₁ tr₁) :
    ∃ mails' rows', tr₁ = tr ++ mails' ∧ db₁.events.rows = db.events.rows ++ rows' ∧
      (∀ mail ∈ mails', mail.requestId = requestId) ∧
      (∀ row ∈ rows', row.2.requestId = requestId) ∧
      Added db₀ tr₀ (done ++ [requestId]) db₁ tr₁ (mails ++ mails') (rows ++ rows') := by
  obtain ⟨mails', rows', htr, hrows, hmails', hrows'⟩ := hrun.added
  refine ⟨mails', rows', htr, hrows, hmails', hrows', ?_, ?_, ?_, ?_, ?_⟩
  · rw [htr, h.trace_eq, List.append_assoc]
  · rw [hrows, h.rows_eq, List.append_assoc]
  · exact hrun.onlyTouches.requests_eq.trans h.requests_eq
  · intro mail hmail
    rcases List.mem_append.1 hmail with hmail | hmail
    · exact List.mem_append_left _ (h.mails_done mail hmail)
    · simp [hmails' mail hmail]
  · intro row hrow
    rcases List.mem_append.1 hrow with hrow | hrow
    · exact List.mem_append_left _ (h.rows_done row hrow)
    · simp [hrows' row hrow]

/-- Until its turn a request has the log it had before the batch. -/
theorem Added.lastPayload_eq (h : Added db₀ tr₀ done db tr mails rows) (hid : requestId ∉ done) :
    lastPayload db requestId = lastPayload db₀ requestId := by
  have hnone : rows.filter (fun row => row.2.requestId = requestId) = [] := by
    rw [List.filter_eq_nil_iff]
    intro row hrow
    have := h.rows_done row hrow
    simp only [decide_eq_true_eq]
    rintro rfl
    exact hid this
  have hrows : db.eventRows requestId = db₀.eventRows requestId := by
    rw [Store.eventRows, h.rows_eq, List.filter_append, hnone, List.append_nil]
    rfl
  simp only [lastPayload, Store.replayed, Store.replayRows, hrows]

theorem Added.handsOver_iff (h : Added db₀ tr₀ done db tr mails rows) (hid : requestId ∉ done)
    {request : RemovalRequest} {profile : Profile} :
    HandsOver db requestId opts source request profile ↔
      HandsOver db₀ requestId opts source request profile := by
  have hreq : db.request requestId = db₀.request requestId := by
    simp only [Store.request, h.requests_eq]
  constructor
  · intro hands
    exact ⟨hreq ▸ hands.request_eq, hands.channel_ne, hands.live, hands.source_eq,
      h.lastPayload_eq hid ▸ hands.fields_eq⟩
  · intro hands
    exact ⟨hreq.trans hands.request_eq, hands.channel_ne, hands.live, hands.source_eq,
      (h.lastPayload_eq hid).symm ▸ hands.fields_eq⟩

theorem Added.addressed (h : Added db₀ tr₀ done db tr mails rows) (hid : requestId ∉ done)
    {channel : SelectedChannel} (haddr : Addressed db₀ requestId opts source channel) :
    Addressed db requestId opts source channel := by
  intro request profile hands
  rw [h.lastPayload_eq hid]
  exact haddr request profile ((h.handsOver_iff hid).1 hands)

/-- Mails and rows of other requests do not matter. -/
theorem Faithful.append {channel : SelectedChannel} {mails' : List Mail}
    {rows' : List (ℤ × EventColumns)} (h : Faithful requestId channel mails rows)
    (hmails : ∀ mail ∈ mails', mail.requestId ≠ requestId)
    (hrows : ∀ row ∈ rows', row.2.requestId ≠ requestId) :
    Faithful requestId channel (mails ++ mails') (rows ++ rows') := by
  intro mail hmail hid
  rcases List.mem_append.1 hmail with hmail | hmail
  · refine ⟨(h mail hmail hid).1, fun row hrow hrid hsent => ?_⟩
    rcases List.mem_append.1 hrow with hrow | hrow
    · exact (h mail hmail hid).2 row hrow hrid hsent
    · exact absurd hrid (hrows row hrow)
  · exact absurd hid (hmails mail hmail)

theorem Faithful.append_left {channel : SelectedChannel} {mails' : List Mail}
    {rows' : List (ℤ × EventColumns)} (h : Faithful requestId channel mails' rows')
    (hmails : ∀ mail ∈ mails, mail.requestId ≠ requestId)
    (hrows : ∀ row ∈ rows, row.2.requestId ≠ requestId) :
    Faithful requestId channel (mails ++ mails') (rows ++ rows') := by
  intro mail hmail hid
  rcases List.mem_append.1 hmail with hmail | hmail
  · exact absurd hid (hmails mail hmail)
  · refine ⟨(h mail hmail hid).1, fun row hrow hrid hsent => ?_⟩
    rcases List.mem_append.1 hrow with hrow | hrow
    · exact absurd hrid (hrows row hrow)
    · exact (h mail hmail hid).2 row hrow hrid hsent

/-- The turn of a request in a batch: what it adds lies between what the requests before and after
it add. -/
def Turn (A : Reply → Prop) (env : Env) (requestId : ℤ) (opts : ExecuteOpts)
    (source : ProfileSource) (now : DateTime) (db₀ : Store) (tr₀ mails : List Mail)
    (rows : List (ℤ × EventColumns)) : Prop :=
  ∃ done db₁ tr₁ before rowsBefore db₂ tr₂ own ownRows after rowsAfter,
    requestId ∉ done ∧ Added db₀ tr₀ done db₁ tr₁ before rowsBefore ∧
    Executed A env requestId opts source now db₁ tr₁ db₂ tr₂ ∧
    tr₂ = tr₁ ++ own ∧ db₂.events.rows = db₁.events.rows ++ ownRows ∧
    mails = before ++ own ++ after ∧ rows = rowsBefore ++ ownRows ++ rowsAfter ∧
    (∀ mail ∈ after, mail.requestId ≠ requestId) ∧ ∀ row ∈ rowsAfter, row.2.requestId ≠ requestId

/-- A batch gives each of its requests one turn. -/
theorem executeBatch_turn (env : Env) (opts : ExecuteOpts) (source : ProfileSource)
    (now : DateTime) {batch : List RemovalRequestRow} (db₀ : Store) (tr₀ : List Mail)
    (requestId : ℤ) (hnodup : (batch.map fun row => row.id).Nodup) :
    Triple A (fun db tr => db = db₀ ∧ tr = tr₀) (executeBatch env opts source now batch)
      fun _ db tr => ∃ mails rows, Added db₀ tr₀ (batch.map fun row => row.id) db tr mails rows ∧
        (requestId ∈ (batch.map fun row => row.id) →
          Turn A env requestId opts source now db₀ tr₀ mails rows) := by
  refine (executeBatch_spec env opts source now batch (fun pre db tr => ∃ mails rows,
    Added db₀ tr₀ (pre.map fun row => row.id) db tr mails rows ∧
      (requestId ∈ (pre.map fun row => row.id) →
        Turn A env requestId opts source now db₀ tr₀ mails rows)) ?_).conseq ?_ fun r db tr h => h
  · rintro pre row post hsplit db tr ⟨mails, rows, hadded, hturn⟩ db₁ tr₁ hrun
    rw [hsplit, List.map_append, List.map_cons, List.nodup_append] at hnodup
    obtain ⟨mails', rows', htr, hrows, hmails', hrows', hadded'⟩ := hadded.step hrun
    refine ⟨mails ++ mails', rows ++ rows', by rwa [List.map_append, List.map_singleton], ?_⟩
    intro hmem
    by_cases hid : row.id = requestId
    · have hfresh : requestId ∉ pre.map fun row => row.id := fun hmem =>
        hnodup.2.2 _ hmem row.id (by simp) hid.symm
      rw [hid] at hrun
      exact ⟨_, db, tr, mails, rows, db₁, tr₁, mails', rows', [], [], hfresh, hadded, hrun, htr,
        hrows, by simp, by simp, by simp, by simp⟩
    · rw [List.map_append, List.mem_append, List.map_singleton, List.mem_singleton] at hmem
      obtain ⟨done, db₂, tr₂, before, rowsBefore, db₃, tr₃, own, ownRows, after, rowsAfter, hfresh,
        hbefore, hexec, htr', hrows'', rfl, rfl, hafter, hrowsAfter⟩ :=
        hturn (hmem.resolve_right (Ne.symm hid))
      refine ⟨done, db₂, tr₂, before, rowsBefore, db₃, tr₃, own, ownRows, after ++ mails',
        rowsAfter ++ rows', hfresh, hbefore, hexec, htr', hrows'', by simp, by simp, ?_, ?_⟩
      · intro mail hmail
        rcases List.mem_append.1 hmail with hmail | hmail
        · exact hafter mail hmail
        · rw [hmails' mail hmail]
          exact hid
      · intro r hr
        rcases List.mem_append.1 hr with hr | hr
        · exact hrowsAfter r hr
        · rw [hrows' r hr]
          exact hid
  · rintro db tr ⟨rfl, rfl⟩
    exact ⟨[], [], ⟨by simp, by simp, rfl, by simp, by simp⟩, by simp⟩

/-- A batch is faithful to the channel of a request that is addressed to it. -/
theorem executeBatch_faithful (env : Env) (opts : ExecuteOpts) (source : ProfileSource)
    (now : DateTime) {batch : List RemovalRequestRow} (db₀ : Store) (tr₀ : List Mail)
    {channel : SelectedChannel} (hnodup : (batch.map fun row => row.id).Nodup)
    (haddr : (∃ row ∈ batch, row.id = requestId) → Addressed db₀ requestId opts source channel) :
    Triple A (fun db tr => db = db₀ ∧ tr = tr₀) (executeBatch env opts source now batch)
      fun _ db tr => ∃ mails rows, Added db₀ tr₀ (batch.map fun row => row.id) db tr mails rows ∧
        Faithful requestId channel mails rows := by
  refine (executeBatch_turn env opts source now db₀ tr₀ requestId hnodup).conseq
    (fun db tr h => h) ?_
  rintro r db tr ⟨mails, rows, hadded, hturn⟩
  refine ⟨mails, rows, hadded, ?_⟩
  by_cases hmem : requestId ∈ batch.map fun row => row.id
  · obtain ⟨done, db₁, tr₁, before, rowsBefore, db₂, tr₂, own, ownRows, after, rowsAfter, hfresh,
      hbefore, hexec, htr, hrows, rfl, rfl, hafter, hrowsAfter⟩ := hturn hmem
    have hown := hexec.faithful (hbefore.addressed hfresh (haddr (List.mem_map.1 hmem))) htr hrows
    refine (hown.append_left ?_ ?_).append hafter hrowsAfter
    · rintro mail hmail rfl
      exact hfresh (hbefore.mails_done mail hmail)
    · rintro r hr rfl
      exact hfresh (hbefore.rows_done r hr)
  · rintro mail hmail rfl
    exact absurd (hadded.mails_done mail hmail) hmem

/-- Without a failing statement, a request of the batch is mailed as its last payload says. -/
theorem executeBatch_accepted (hA : ¬ CanFail A) (env : Env) (opts : ExecuteOpts)
    (source : ProfileSource) (now : DateTime) {batch : List RemovalRequestRow} (db₀ : Store)
    (tr₀ : List Mail) (hnodup : (batch.map fun row => row.id).Nodup) {request : RemovalRequest}
    {profile : Profile} (hands : HandsOver db₀ requestId opts source request profile) :
    Triple A (fun db tr => db = db₀ ∧ tr = tr₀)
      (executeBatch env { opts with emailSender := some acceptAll } source now batch)
      fun _ db tr => ∃ mails rows, Added db₀ tr₀ (batch.map fun row => row.id) db tr mails rows ∧
        (requestId ∈ (batch.map fun row => row.id) →
          (∃ mail ∈ mails, mail.requestId = requestId ∧
            mail.endpoint = endpointOf (lastPayload db₀ requestId)) ∧
          ∃ row ∈ rows, row.2.requestId = requestId ∧ row.2.eventType = "SENT" ∧
            storedDays row.2 = some (.int (expectedDaysOf (lastPayload db₀ requestId)))) := by
  refine (executeBatch_turn env _ source now db₀ tr₀ requestId hnodup).conseq (fun db tr h => h) ?_
  rintro r db tr ⟨mails, rows, hadded, hturn⟩
  refine ⟨mails, rows, hadded, fun hmem => ?_⟩
  obtain ⟨done, db₁, tr₁, before, rowsBefore, db₂, tr₂, own, ownRows, after, rowsAfter, hfresh,
    hbefore, hexec, htr, hrows, rfl, rfl, -, -⟩ := hturn hmem
  obtain ⟨⟨mail, hmail, hrest⟩, row, hr, hrest'⟩ :=
    hexec.accepted hA ((hbefore.handsOver_iff hfresh).2 hands)
  rw [hbefore.lastPayload_eq hfresh] at hrest hrest'
  rw [htr, List.append_cancel_left_eq] at hmail
  rw [hrows, List.append_cancel_left_eq] at hr
  rw [hmail, hr]
  exact ⟨⟨mail, by simp, hrest⟩, row, by simp, hrest'⟩

/-! ### Planned requests -/

theorem PlannedIn.mono {selected : Broker × SelectedChannel}
    (h : PlannedIn db₀ requestId selected now)
    (hrows : ∀ row ∈ db₀.events.rows, row ∈ db.events.rows) :
    PlannedIn db requestId selected now := by
  obtain ⟨row, hrow, hplanned⟩ := h
  exact ⟨row, hrows row hrow, hplanned⟩

/-- Every request of a plan has the `PLANNED` event of its broker. -/
theorem plannedIn_planCampaign (env : Env) (brokers : List Broker) (identityHash : String)
    (opts : PlanOpts) (now : DateTime) (c : Conn Store Mail) {result : PlanResult}
    (hplan : (planCampaign env brokers identityHash opts now c).1 = .ok result) :
    ∀ request ∈ result.requests, ∃ selected ∈ selectedBrokers brokers opts,
      request.brokerId = selected.1.id ∧
      PlannedIn (planCampaign env brokers identityHash opts now c).2.db request.requestId selected
        now := by
  have hspec := planCampaign_spec (τ := Mail) (A := AnyReply) env brokers identityHash opts now
    (fun done db _ => ∀ request ∈ done, ∃ selected ∈ selectedBrokers brokers opts,
      request.brokerId = selected.1.id ∧ PlannedIn db request.requestId selected now)
    (fun db tr campaigns h => by simp) ?_
  · have hpost := hspec.run c (by simp)
    rw [hplan] at hpost
    exact hpost
  · rintro done selected request db₀ tr db hsel h hid hbroker ⟨createdAt, recordedAt, writtenAt, rfl⟩
      q hq
    rcases List.mem_append.1 hq with hq | hq
    · obtain ⟨selected', hsel', hbroker', hplanned⟩ := h q hq
      exact ⟨selected', hsel', hbroker', hplanned.mono fun row hrow => List.mem_append_left _ hrow⟩
    · rw [List.mem_singleton.1 hq]
      refine ⟨selected, hsel, hbroker, _, List.mem_append_right _ (List.mem_singleton_self _),
        recordedAt, ?_⟩
      rw [hid]

/-- Appends keep the rows of the log. -/
theorem mem_rows_runAppends (arch : TargetArch) (calls : List AppendCall) (c : Conn Store Mail)
    {row : ℤ × EventColumns} (hrow : row ∈ c.db.events.rows) :
    row ∈ (runAppends arch calls c).2.db.events.rows :=
  runAppends_keeps (P := fun db => row ∈ db.events.rows) arch calls c
    (fun _ _ _ h _ _ _ => List.mem_append_left _ h) hrow

theorem Added.faithfulRun {c c' : Conn Store Mail} {channel : SelectedChannel}
    (h : Added c.db c.trace done c'.db c'.trace mails rows) :
    FaithfulRun requestId channel c c' ↔ Faithful requestId channel mails rows := by
  rw [FaithfulRun, h.trace_eq, h.rows_eq, List.drop_left, List.drop_left]

theorem Executed.addedRun {c c' : Conn Store Mail}
    (h : Executed A env requestId opts source now c.db c.trace c'.db c'.trace) :
    ∃ mails rows, Added c.db c.trace [requestId] c'.db c'.trace mails rows := by
  obtain ⟨mails, rows, htr, hrows, hmails, hids⟩ := h.added
  exact ⟨mails, rows, htr, hrows, h.onlyTouches.requests_eq,
    fun mail hmail => by simp [hmails mail hmail], fun row hrow => by simp [hids row hrow]⟩

section Calls

variable {c : Conn Store Mail} {channel : SelectedChannel}

/-- Whether a request is addressed does not depend on the sender. -/
theorem addressed_withSender (h : Addressed db requestId opts source channel)
    (sender : EmailSender) :
    Addressed db requestId { opts with emailSender := some sender } source channel :=
  fun request profile hands => h request profile
    ⟨hands.request_eq, hands.channel_ne, hands.live, hands.source_eq, hands.fields_eq⟩

theorem faithful_executeRequest (h : Addressed c.db requestId opts source channel)
    (sender : EmailSender) :
    FaithfulRun requestId channel c
      (executeRequest env requestId { opts with emailSender := some sender } source now c).2 := by
  have hrun := (executeRequest_spec env requestId { opts with emailSender := some sender } source
    now c.db c.trace).run c ⟨rfl, rfl⟩
  obtain ⟨mails, rows, hadded⟩ := hrun.addedRun
  rw [hadded.faithfulRun]
  exact hrun.faithful (addressed_withSender h sender) hadded.trace_eq hadded.rows_eq

theorem addressed_of_executeRequest (hc : ∀ n, Faultless (c.replies n))
    (h : FaithfulRun requestId channel c
      (executeRequest env requestId { opts with emailSender := some acceptAll } source now c).2) :
    Addressed c.db requestId opts source channel := by
  intro request profile hands
  have hrun := (executeRequest_spec (A := Faultless) env requestId
    { opts with emailSender := some acceptAll } source now c.db c.trace c hc ⟨rfl, rfl⟩).2
  obtain ⟨⟨mail, htr, hid, hendpoint⟩, row, hrows, hrid, hsent, hdays⟩ :=
    hrun.accepted not_canFail_faultless hands
  rw [FaithfulRun, htr, hrows, List.drop_left, List.drop_left] at h
  obtain ⟨hto, hall⟩ := h mail (by simp) hid
  refine ⟨hendpoint.symm.trans hto, ?_⟩
  have hsame := hdays.symm.trans (hall row (by simp) hrid hsent)
  exact Json.int.inj (Option.some.inj hsame)

variable {campaignId : String} {batchSize : ℤ}

theorem faithful_executeCampaign
    (h : (∃ row ∈ batchOf c.db campaignId batchSize (c.replies 1).rank, row.id = requestId) →
      Addressed c.db requestId opts source channel) (sender : EmailSender) :
    FaithfulRun requestId channel c (executeCampaign env campaignId
      { opts with emailSender := some sender } source batchSize now c).2 := by
  rcases executeCampaign_cases env campaignId { opts with emailSender := some sender } source
    batchSize now c with ⟨hdb, htr, -⟩ | hbatch
  · rw [FaithfulRun, hdb, htr, List.drop_length, List.drop_length]
    intro mail hmail
    cases hmail
  · obtain ⟨mails, rows, hadded, hfaithful⟩ := (executeBatch_faithful (A := AnyReply) env
      { opts with emailSender := some sender } source now c.db c.trace nodup_batchOf
      fun hrow => addressed_withSender (h hrow) sender).run c.next.next ⟨rfl, rfl⟩
    rw [hbatch, hadded.faithfulRun]
    exact hfaithful

theorem addressed_of_executeCampaign (hc : ∀ n, Faultless (c.replies n))
    (h : FaithfulRun requestId channel c (executeCampaign env campaignId
      { opts with emailSender := some acceptAll } source batchSize now c).2)
    (hrow : ∃ row ∈ batchOf c.db campaignId batchSize (c.replies 1).rank, row.id = requestId) :
    Addressed c.db requestId opts source channel := by
  intro request profile hands
  rcases executeCampaign_cases env campaignId { opts with emailSender := some acceptAll } source
    batchSize now c with ⟨-, -, n, hn⟩ | hbatch
  · exact absurd (hc n) hn
  · obtain ⟨-, mails, rows, hadded, hmailed⟩ := executeBatch_accepted not_canFail_faultless env opts
      source now c.db c.trace nodup_batchOf hands c.next.next (fun n => hc (n + 2)) ⟨rfl, rfl⟩
    rw [hbatch, hadded.faithfulRun] at h
    obtain ⟨row, hmem, hid⟩ := hrow
    obtain ⟨⟨mail, hmail, hmid, hendpoint⟩, r, hr, hrid, hsent, hdays⟩ :=
      hmailed (List.mem_map.2 ⟨row, hmem, hid⟩)
    obtain ⟨hto, hall⟩ := h mail hmail hmid
    refine ⟨hendpoint.symm.trans hto, ?_⟩
    have hsame := hdays.symm.trans (hall r hr hrid hsent)
    exact Json.int.inj (Option.some.inj hsame)

end Calls

/-- For a request of a plan and any events appended after it: whatever the sender answers, the mail
of an execution is faithful to the planned channel exactly when the request is addressed to it. -/
theorem mailed_to_planned_iff (env : Env) (brokers : List Broker) (identityHash : String)
    (planOpts : PlanOpts) (planned : DateTime) (c₀ : Conn Store Mail) {result : PlanResult}
    (hplan : (planCampaign env brokers identityHash planOpts planned c₀).1 = .ok result)
    {request : PlanRequest} (hrequest : request ∈ result.requests) (calls : List AppendCall)
    (c : Conn Store Mail)
    (hc : c = (runAppends env.arch calls
      (planCampaign env brokers identityHash planOpts planned c₀).2).2) :
    ∃ selected ∈ selectedBrokers brokers planOpts, request.brokerId = selected.1.id ∧
      PlannedIn c.db request.requestId selected planned ∧
      ∀ (opts : ExecuteOpts) (source : ProfileSource) (now : DateTime),
        ((Addressed c.db request.requestId opts source selected.2 →
          ∀ sender, FaithfulRun request.requestId selected.2 c (executeRequest env request.requestId
            { opts with emailSender := some sender } source now c).2) ∧
        ((∀ n, Faultless (c.replies n)) →
          (∀ sender, FaithfulRun request.requestId selected.2 c (executeRequest env
            request.requestId { opts with emailSender := some sender } source now c).2) →
          Addressed c.db request.requestId opts source selected.2)) ∧
        ∀ campaignId batchSize,
          (((∃ row ∈ batchOf c.db campaignId batchSize (c.replies 1).rank,
              row.id = request.requestId) →
            Addressed c.db request.requestId opts source selected.2) →
          ∀ sender, FaithfulRun request.requestId selected.2 c (executeCampaign env campaignId
            { opts with emailSender := some sender } source batchSize now c).2) ∧
          ((∀ n, Faultless (c.replies n)) →
            (∀ sender, FaithfulRun request.requestId selected.2 c (executeCampaign env campaignId
              { opts with emailSender := some sender } source batchSize now c).2) →
            (∃ row ∈ batchOf c.db campaignId batchSize (c.replies 1).rank,
              row.id = request.requestId) →
            Addressed c.db request.requestId opts source selected.2) := by
  obtain ⟨selected, hselected, hbroker, hplanned⟩ := plannedIn_planCampaign env brokers identityHash
    planOpts planned c₀ hplan request hrequest
  refine ⟨selected, hselected, hbroker, ?_, fun opts source now => ⟨⟨fun haddr sender => ?_,
    fun hfault hfaithful => ?_⟩, fun campaignId batchSize => ⟨fun haddr sender => ?_,
    fun hfault hfaithful hrow => ?_⟩⟩⟩
  · rw [hc]
    exact hplanned.mono fun row hrow => mem_rows_runAppends env.arch calls _ hrow
  · exact faithful_executeRequest haddr sender
  · exact addressed_of_executeRequest hfault (hfaithful acceptAll)
  · exact faithful_executeCampaign haddr sender
  · exact addressed_of_executeCampaign hfault (hfaithful acceptAll) hrow

/-- The connection after a plan of the mail broker. -/
def plannedConn : Conn Store Mail :=
  (planCampaign homeEnv [acmeMail] "" { campaignId := "spring" } epoch Store.fresh.connect).2

/-- The planned request got a note. -/
def noted (payload : Map) : Conn Store Mail :=
  (runAppends homeEnv.arch [⟨1, .noteAdded, payload, .user, epoch⟩] plannedConn).2

/-- The channel that the plan selects. -/
def acmeChannel : SelectedChannel := .email "privacy@acme.example" none "" 45

/-- Options with a sender. -/
def withSender (sender : EmailSender) : ExecuteOpts := { emailSender := some sender }

theorem plan_acmeMail :
    (planCampaign (τ := Mail) homeEnv [acmeMail] "" { campaignId := "spring" } epoch
      Store.fresh.connect).1 = .ok ⟨"spring", 1, 1, 1, [⟨1, "acme", "Acme Data", "email", ""⟩]⟩ := by
  decide

theorem selected_acmeMail :
    selectedBrokers [acmeMail] { campaignId := "spring" } = [(acmeMail, acmeChannel)] := by
  decide

/-- A note that repeats the endpoint and the response time changes nothing. -/
theorem mailed_to_planned_noted :
    let c := noted [("endpoint", .string "privacy@acme.example"),
      ("expected_response_days", .int 45)]
    (executeRequest homeEnv 1 (withSender acceptAll) (.ok (some jo)) epoch c).2.trace.map
        Mail.endpoint = ["privacy@acme.example"] ∧
      ∀ sender, FaithfulRun 1 acmeChannel c
          (executeRequest homeEnv 1 (withSender sender) (.ok (some jo)) epoch c).2 ∧
        FaithfulRun 1 acmeChannel c
          (executeCampaign homeEnv "spring" (withSender sender) (.ok (some jo)) 5 epoch c).2 := by
  intro c
  refine ⟨by decide, fun sender => ?_⟩
  have hlast : endpointOf (lastPayload c.db 1) = acmeChannel.endpoint ∧
      expectedDaysOf (lastPayload c.db 1) = acmeChannel.expectedResponseDays := by
    decide
  have haddr : Addressed c.db 1 {} (.ok (some jo)) acmeChannel := fun _ _ _ => hlast
  obtain ⟨selected, hsel, -, -, h⟩ := mailed_to_planned_iff homeEnv [acmeMail] ""
    { campaignId := "spring" } epoch Store.fresh.connect plan_acmeMail (List.mem_singleton_self _)
    [⟨1, .noteAdded, _, .user, epoch⟩] c rfl
  rw [selected_acmeMail, List.mem_singleton] at hsel
  obtain ⟨⟨hone, -⟩, hbatch⟩ := h {} (.ok (some jo)) epoch
  rw [hsel] at hone hbatch
  exact ⟨hone haddr sender, (hbatch "spring" 5).1 (fun _ => haddr) sender⟩

/-- After an empty note the mail goes nowhere, and the response time is the default. -/
theorem mailed_to_nobody :
    let c := noted []
    let c' := (executeRequest homeEnv 1 (withSender acceptAll) (.ok (some jo)) epoch c).2
    let c'' := (executeCampaign homeEnv "spring" (withSender acceptAll) (.ok (some jo)) 5 epoch c).2
    PlannedIn c.db 1 (acmeMail, acmeChannel) epoch ∧
      c'.trace.map Mail.endpoint = [""] ∧ c''.trace.map Mail.endpoint = [""] ∧
      (c'.db.events.rows.drop 2).map (fun row => (storedDays row.2).bind asI64) = [some 30] ∧
      (c''.db.events.rows.drop 2).map (fun row => (storedDays row.2).bind asI64) = [some 30] ∧
      ¬ FaithfulRun 1 acmeChannel c c' ∧ ¬ FaithfulRun 1 acmeChannel c c'' := by
  intro c c' c''
  have hunfaithful : ∀ run : Conn Store Mail,
      (run.trace.map fun mail => (mail.requestId, mail.endpoint)) = [(1, "")] →
        ¬ FaithfulRun 1 acmeChannel c run := by
    intro run htrace h
    have hempty : c.trace = [] := by decide
    rw [FaithfulRun, hempty, List.length_nil, List.drop_zero] at h
    obtain ⟨mail, hmail, hpair⟩ := List.map_eq_singleton_iff.1 htrace
    have hto := (h mail (by simp [hmail]) (congrArg Prod.fst hpair)).1
    rw [show mail.endpoint = "" from congrArg Prod.snd hpair] at hto
    exact absurd hto (by decide)
  have hruns : (c'.trace.map fun mail => (mail.requestId, mail.endpoint)) = [(1, "")] ∧
      (c''.trace.map fun mail => (mail.requestId, mail.endpoint)) = [(1, "")] ∧
      (c'.db.events.rows.drop 2).map (fun row => (storedDays row.2).bind asI64) = [some 30] ∧
      (c''.db.events.rows.drop 2).map (fun row => (storedDays row.2).bind asI64) = [some 30] := by
    decide
  obtain ⟨hone, hbatch, hdays, hdays'⟩ := hruns
  have hendpoint : ∀ run : Conn Store Mail,
      (run.trace.map fun mail => (mail.requestId, mail.endpoint)) = [(1, "")] →
        run.trace.map Mail.endpoint = [""] := by
    intro run htrace
    have hsnd := congrArg (List.map Prod.snd) htrace
    rwa [List.map_map] at hsnd
  refine ⟨?_, hendpoint c' hone, hendpoint c'' hbatch, hdays, hdays', hunfaithful c' hone,
    hunfaithful c'' hbatch⟩
  obtain ⟨selected, hsel, -, hplanned⟩ := plannedIn_planCampaign homeEnv [acmeMail] ""
    { campaignId := "spring" } epoch Store.fresh.connect plan_acmeMail _ (List.mem_singleton_self _)
  rw [selected_acmeMail, List.mem_singleton] at hsel
  rw [hsel] at hplanned
  exact hplanned.mono fun row hrow => mem_rows_runAppends homeEnv.arch _ _ hrow

end EraseMe.Campaign
