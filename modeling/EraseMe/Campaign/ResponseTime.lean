import EraseMe.Campaign.Channels
import EraseMe.Campaign.Orphans

/-!
# The deadline of a planned request

The response time of a channel travels from the registry through the payload of the `PLANNED` event
into that of the `SENT` event, and from there into the deadline of the state.  On the way it is
multiplied into 64 bits of nanoseconds, as the Go program did: the deadline is the response time
after the mail up to 106751 days, and another instant, or none, from then on (`deadline_planned`).
-/

namespace EraseMe.Campaign

open Chrono Identity Json Registry Sqlite Storage

variable {A : Reply → Prop} {env : Env} {requestId days : ℤ} {opts : ExecuteOpts}
  {source : ProfileSource} {now : DateTime} {db₀ db : Store} {tr₀ tr : List Mail}

/-- The response time of an e-mail channel in days. -/
def responseTime (options : ChannelOptions) : ℤ :=
  match options.expectedResponseDays with
  | some days => days.val
  | none => 30

/-- The request is an e-mail request that was not sent, and its log names the response time. -/
structure AwaitsMail (db : Store) (requestId days : ℤ) : Prop where
  row : ∃ columns, db.requests.find requestId = some columns ∧ columns.channel = "email"
  unsent : ∀ row ∈ db.events.rows, row.2.requestId = requestId → row.2.eventType ≠ "SENT"
  days_eq : expectedDaysOf (lastPayload db requestId) = days

/-- The log has a `SENT` event of the request. -/
def Sent (db : Store) (requestId : ℤ) : Prop :=
  ∃ row ∈ db.events.rows, row.2.requestId = requestId ∧ row.2.eventType = "SENT"

/-- The deadline of a mail, with the duration in 64 bits of nanoseconds. -/
def mailDeadline (now : DateTime) (days : ℤ) : Option DateTime :=
  now.trunc.checkedAddSigned (wrapI64 (days * nanosecondsPerDay))

/-- The state of the request has the deadline of a mail. -/
def Dated (db : Store) (requestId : ℤ) (now : DateTime) (days : ℤ) : Prop :=
  ∃ state, db.state requestId = some state ∧
    state.deadlineAt = (mailDeadline now days).map Timeutil.formatIso

/-! ### The duration -/

/-- The duration is the response time as long as it fits into 64 bits. -/
theorem wrapI64_days_iff (h : 0 ≤ days) :
    wrapI64 (days * nanosecondsPerDay) = durationDays days ↔ days ≤ 106751 := by
  have hduration : durationDays days = days * nanosecondsPerDay := by
    rw [durationDays, nanosecondsPerDay, nanosPerSecond]
    ring
  rw [hduration, wrapI64, nanosecondsPerDay]
  omega

/-! ### The `SENT` event -/

/-- The deadline of an appended `SENT` event. -/
theorem deadlineOf_appendedEvent (arch : TargetArch) (id requestId : ℤ) {payload : Map}
    (source : Source) (now recordedAt : DateTime) (hlo : 0 < days) (hhi : days < 4294967296)
    (h : payload.get "expected_response_days" = some (.int days)) :
    deadlineOf arch (appendedEvent id requestId .sent payload source now recordedAt) =
      mailDeadline now days := by
  have hget : (sortedMap payload).get "expected_response_days" = some (.int days) := by
    rw [get_sortedMap, h]
    rfl
  have hdays : responseDays arch (sortedMap payload) = days := by
    rw [responseDays, payloadInteger_of_get arch hget hlo (by omega), Option.getD_some]
    exact max_eq_left hlo.le
  rw [deadlineOf, mailDeadline]
  exact congrArg (fun n => now.trunc.checkedAddSigned (wrapI64 (n * nanosecondsPerDay))) hdays

theorem mem_replayed {event : EventRecord} (h : event ∈ db.replayed requestId) :
    ∃ row ∈ db.events.rows, row.2.requestId = requestId ∧
      event.eventType = .fromWire row.2.eventType := by
  obtain ⟨row, hrow, hdecode⟩ := List.mem_filterMap.1 h
  rw [Store.replayRows, List.mem_insertionSort, mem_eventRows] at hrow
  exact ⟨row, hrow.1, hrow.2, eventType_decodeEvent hdecode⟩

/-- A type that is read as `SENT` is written so. -/
theorem eq_sent_of_fromWire {value : String} (h : EventType.fromWire value = .sent) :
    value = "SENT" := by
  unfold EventType.fromWire at h
  cases hfind : EventType.catalogue.find? (fun t => t.asStr = value) with
  | none =>
    rw [hfind] at h
    cases h
  | some t =>
    rw [hfind, Option.getD_some] at h
    have hvalue := List.find?_some hfind
    rw [h, decide_eq_true_eq] at hvalue
    exact hvalue.symm

/-- The first `SENT` event of a request sets its deadline, wherever it is replayed. -/
theorem dated_of_recorded {payload : Map}
    (h : Recorded env.arch requestId .sent payload now db₀ db)
    (hunsent : ∀ row ∈ db₀.events.rows, row.2.requestId = requestId → row.2.eventType ≠ "SENT")
    (hzero : isGoZeroTime now.trunc = false) (hdecodes : decodes (.object payload) = true)
    (hlo : 0 < days) (hhi : days < 4294967296)
    (hget : payload.get "expected_response_days" = some (.int days)) :
    Dated db requestId now days := by
  obtain ⟨recordedAt, writtenAt, rfl⟩ := h
  have hrow : (eventColumns requestId .sent payload .system now recordedAt).requestId = requestId :=
    rfl
  obtain ⟨l₁, l₂, hold, hnew⟩ := exists_replayed_withEvent db₀ hrow
  rw [decodeEvent_eventColumns _ _ _ _ _ (by simp) (by simp), if_pos hdecodes, Option.toList_some,
    List.singleton_append] at hnew
  have hnone : ∀ event ∈ l₁ ++ l₂, event.eventType ≠ .sent := by
    intro event hevent hsent
    rw [← hold] at hevent
    obtain ⟨row, hrow, hid, htype⟩ := mem_replayed hevent
    exact hunsent row hrow hid (eq_sent_of_fromWire (htype.symm.trans hsent))
  have hskip : ¬ (appendedEvent (db₀.events.seq + 1) requestId .sent payload .system now
      recordedAt).Skipped := by
    rintro (h | h)
    · cases h
    · change isGoZeroTime now.trunc = true at h
      rw [hzero] at h
      cases h
  refine ⟨_, projected_state_self _ _ _ _, ?_⟩
  change (foldEvents env.arch requestId _).deadlineAt = _
  rw [foldEvents_deadlineAt, hnew, lastDeadline_insert env.arch rfl hskip
    (fun e he => hnone e (List.mem_append_left _ he))
    (fun e he => hnone e (List.mem_append_right _ he)),
    deadlineOf_appendedEvent _ _ _ _ _ _ hlo hhi hget]

/-! ### One request of a batch -/

/-- Running another request leaves the log of this one. -/
theorem OnlyTouches.eventRows_of_ne {id : ℤ} {text : String} (h : OnlyTouches id text db₀ db)
    (hid : requestId ≠ id) : db.eventRows requestId = db₀.eventRows requestId := by
  obtain ⟨new, hrows, hnew⟩ := h.rows_eq
  have hnone : new.filter (fun row => row.2.requestId = requestId) = [] := by
    rw [List.filter_eq_nil_iff]
    intro row hrow
    simp only [(hnew row hrow).1, decide_eq_true_eq]
    exact hid.symm
  rw [Store.eventRows, hrows, List.filter_append, hnone, List.append_nil]
  rfl

theorem sent_congr (h : db.eventRows requestId = db₀.eventRows requestId) :
    Sent db requestId ↔ Sent db₀ requestId := by
  have hsent : ∀ db : Store, Sent db requestId ↔
      ∃ row ∈ db.eventRows requestId, row.2.eventType = "SENT" := by
    intro db
    simp only [Sent, mem_eventRows, and_assoc]
  rw [hsent, hsent, h]

theorem AwaitsMail.not_sent (h : AwaitsMail db requestId days) : ¬ Sent db requestId := by
  rintro ⟨row, hrow, hid, hsent⟩
  exact h.unsent row hrow hid hsent

theorem AwaitsMail.congr (h : AwaitsMail db₀ requestId days)
    (hrequest : db.requests.find requestId = db₀.requests.find requestId)
    (hrows : db.eventRows requestId = db₀.eventRows requestId) :
    AwaitsMail db requestId days := by
  refine ⟨hrequest ▸ h.row, fun row hrow hid hsent => ?_, ?_⟩
  · exact h.not_sent ((sent_congr hrows).1 ⟨row, hrow, hid, hsent⟩)
  · rw [lastPayload, Store.replayed, Store.replayRows, hrows]
    exact h.days_eq

/-- A request that is sent is dated. -/
theorem AwaitsMail.executed (h : AwaitsMail db₀ requestId days)
    (hzero : isGoZeroTime now.trunc = false)
    (hsender : ∀ sender, opts.emailSender = some sender → Shallow sender)
    (hlo : 0 < days) (hhi : days < 4294967296)
    (hrun : Executed A env requestId opts source now db₀ tr₀ db tr) (hsent : Sent db requestId) :
    Dated db requestId now days := by
  rcases hrun with ⟨rfl, -, -⟩ | ⟨request, profile, sender, hands, hsome, -, hend⟩ |
    ⟨request, profile, hrequest, hform, -⟩
  · exact absurd hsent h.not_sent
  · have hid := request_id hands.request_eq
    rcases hend with ⟨rfl, -⟩ | hanswered
    · exact absurd hsent h.not_sent
    unfold Answered at hanswered
    rw [hid] at hanswered
    split at hanswered
    · next result hresult =>
      refine dated_of_recorded hanswered h.unsent hzero
        (decodes_sentPayload (hsender sender hsome _ _ _ _ _ hresult)) hlo hhi ?_
      rw [← h.days_eq]
      rfl
    · -- a refused mail is recorded as such
      obtain ⟨recordedAt, writtenAt, rfl⟩ := hanswered
      obtain ⟨row, hrow, hrow', htype⟩ := hsent
      rcases List.mem_append.1 hrow with hrow | hrow
      · exact absurd htype (h.unsent row hrow hrow')
      · rw [List.mem_singleton.1 hrow] at htype
        simp [eventColumns, EventType.asStr] at htype
  · obtain ⟨columns, hfind, hchannel⟩ := h.row
    rw [Store.request, hfind, Option.map_some] at hrequest
    cases hrequest
    rw [channelOf, hchannel] at hform
    simp at hform

/-- After a campaign a request that was sent by it is dated. -/
theorem dated_executeCampaign {c : Conn Store Mail} (h : AwaitsMail c.db requestId days)
    (campaignId : String) (batchSize : ℤ) (hzero : isGoZeroTime now.trunc = false)
    (hsender : ∀ sender, opts.emailSender = some sender → Shallow sender)
    (hlo : 0 < days) (hhi : days < 4294967296)
    (hsent : Sent (executeCampaign env campaignId opts source batchSize now c).2.db requestId) :
    Dated (executeCampaign env campaignId opts source batchSize now c).2.db requestId now days := by
  rcases executeCampaign_cases env campaignId opts source batchSize now c with
    ⟨hdb, -, -⟩ | hbatch
  · rw [hdb] at hsent
    exact absurd hsent h.not_sent
  rw [hbatch] at hsent ⊢
  set batch := batchOf c.db campaignId batchSize (c.replies 1).rank with hdef
  have hspec := executeBatch_spec (A := AnyReply) env opts source now batch
    (fun pre db _ => (requestId ∉ (pre.map fun row => row.id) → AwaitsMail db requestId days) ∧
      (Sent db requestId → Dated db requestId now days)) ?_
  · exact (hspec.run c.next.next ⟨fun _ => h, fun hsent => absurd hsent h.not_sent⟩).2 hsent
  · rintro pre row post hsplit db₀ tr₀ ⟨hawaits, hdated⟩ db tr hrun
    have htouch := hrun.onlyTouches
    have hnodup : (batch.map fun row => row.id).Nodup := nodup_batchOf
    rw [hsplit, List.map_append, List.map_cons, List.nodup_append] at hnodup
    rw [List.map_append, List.map_singleton, List.mem_append, List.mem_singleton, not_or]
    by_cases hid : requestId = row.id
    · subst hid
      have hfresh : row.id ∉ pre.map fun row => row.id := fun hmem =>
        hnodup.2.2 _ hmem row.id (by simp) rfl
      exact ⟨fun hnot => absurd rfl hnot.2,
        (hawaits hfresh).executed hzero hsender hlo hhi hrun⟩
    · have hrows := htouch.eventRows_of_ne hid
      refine ⟨fun hnot => (hawaits hnot.1).congr (by rw [htouch.requests_eq]) hrows,
        fun hsent => ?_⟩
      obtain ⟨state, hstate, hdeadline⟩ := hdated ((sent_congr hrows).1 hsent)
      exact ⟨state, (htouch.state_eq _ hid).trans hstate, hdeadline⟩

/-! ### Planned requests -/

section Planned

variable {identityHash : String} {planOpts : PlanOpts} {selected : Broker × SelectedChannel}

/-- The payload of a `PLANNED` event names the response time of its channel. -/
theorem expectedDaysOf_plannedPayload (broker : Broker) {channel : SelectedChannel}
    (hlo : 0 < channel.expectedResponseDays) (hhi : channel.expectedResponseDays < 4294967296) :
    expectedDaysOf (sortedMap (plannedPayload broker channel)) = channel.expectedResponseDays := by
  have hget : (sortedMap (plannedPayload broker channel)).get "expected_response_days" =
      some (.int channel.expectedResponseDays) := by
    rw [get_sortedMap]
    simp [plannedPayload, Map.get_cons, goMapOrder]
  have hint : asI64 (.int channel.expectedResponseDays) = some channel.expectedResponseDays :=
    if_pos ⟨by rw [i64Min]; omega, by rw [Json.i64Max]; omega⟩
  rw [expectedDaysOf, hget, Option.bind_some, hint, Option.filter_some,
    if_pos (decide_eq_true hlo), Option.getD_some]

/-- A new request awaits its mail. -/
theorem Planned.awaitsMail (h : Planned env identityHash planOpts now selected db₀ db)
    (href : Referential db₀) (hkind : selected.2.kind = "email")
    (hlo : 0 < selected.2.expectedResponseDays)
    (hhi : selected.2.expectedResponseDays < 4294967296) :
    AwaitsMail db (db₀.requests.seq + 1) selected.2.expectedResponseDays := by
  obtain ⟨columns, hchannel, hfind⟩ := h.find (db₀.requests.seq + 1)
  rw [if_pos rfl] at hfind
  obtain ⟨createdAt, recordedAt, writtenAt, rfl⟩ := h
  -- the log had no event of an id that was not given out
  have hold : db₀.eventRows (db₀.requests.seq + 1) = [] := by
    rw [Store.eventRows, List.filter_eq_nil_iff]
    intro row hrow
    have hle := href row hrow
    simp only [decide_eq_true_eq]
    omega
  refine ⟨⟨columns, hfind, hchannel.trans hkind⟩, fun row hrow hid => ?_, ?_⟩
  · rcases List.mem_append.1 hrow with hrow | hrow
    · have hle := href row hrow
      omega
    · rw [List.mem_singleton.1 hrow]
      simp [eventColumns, EventType.asStr]
  · have hlast : ∀ a ∈ (db₀.withRequest (plannedColumns identityHash planOpts selected
        createdAt)).eventRows (db₀.requests.seq + 1),
        a.2.occurredAt ≤ Timeutil.formatSql now := by
      change ∀ a ∈ db₀.eventRows _, _
      rw [hold]
      simp
    have ht : ∀ v, EventType.planned ≠ .unknown v := by simp
    have hs : ∀ v, Source.system ≠ .unknown v := by simp
    have hdecodes : decodes (.object (plannedPayload selected.1 selected.2)) = true := rfl
    have hreplayed := replayed_eventColumns_last recordedAt ht hs hdecodes hlast
    rw [lastPayload, projected_replayed, hreplayed, List.getLast?_append, List.getLast?_singleton,
      Option.some_or]
    exact expectedDaysOf_plannedPayload selected.1 hlo hhi

/-- The requests planned before stay as they are. -/
theorem AwaitsMail.planned (hold : AwaitsMail db₀ requestId days)
    (h : Planned env identityHash planOpts now selected db₀ db) : AwaitsMail db requestId days := by
  obtain ⟨columns', hfind', -⟩ := hold.row
  have hle : requestId ≤ db₀.requests.seq := Table.le_seq_of_find (by rw [hfind']; rfl)
  obtain ⟨columns, -, hfind⟩ := h.find requestId
  rw [if_neg (by omega)] at hfind
  refine hold.congr hfind ?_
  obtain ⟨createdAt, recordedAt, writtenAt, rfl⟩ := h
  have hne : ¬ (eventColumns (db₀.requests.seq + 1) .planned (plannedPayload selected.1 selected.2)
      .system now recordedAt).requestId = requestId := by
    change ¬ db₀.requests.seq + 1 = requestId
    omega
  change (Store.withEvent _ _).eventRows requestId = _
  rw [eventRows_withEvent, if_neg hne]
  rfl

/-- What holds of an e-mail request directly after its plan. -/
theorem awaitsMail_planCampaign (env : Env) (brokers : List Broker) (identityHash : String)
    (opts : PlanOpts) (now : DateTime) (c : Conn Store Mail) (href : Referential c.db)
    {result : PlanResult}
    (hplan : (planCampaign env brokers identityHash opts now c).1 = .ok result) :
    ∀ request ∈ result.requests, ∃ selected ∈ selectedBrokers brokers opts,
      request.brokerId = selected.1.id ∧ (selected.2.kind = "email" →
        0 < selected.2.expectedResponseDays → selected.2.expectedResponseDays < 4294967296 →
        AwaitsMail (planCampaign env brokers identityHash opts now c).2.db request.requestId
          selected.2.expectedResponseDays) := by
  have hspec := planCampaign_spec (τ := Mail) (A := AnyReply) env brokers identityHash opts now
    (fun done db _ => Referential db ∧ ∀ request ∈ done, ∃ selected ∈ selectedBrokers brokers opts,
      request.brokerId = selected.1.id ∧ (selected.2.kind = "email" →
        0 < selected.2.expectedResponseDays → selected.2.expectedResponseDays < 4294967296 →
        AwaitsMail db request.requestId selected.2.expectedResponseDays))
    (fun db tr campaigns h => ⟨h.1, by simp⟩) ?_
  · have hpost := hspec.run c ⟨href, by simp⟩
    rw [hplan] at hpost
    exact hpost.2
  · rintro done selected request db₀ tr db hsel ⟨href, h⟩ hid hbroker hplanned
    refine ⟨hplanned.referential href, fun q hq => ?_⟩
    rcases List.mem_append.1 hq with hq | hq
    · obtain ⟨selected', hsel', hbroker', hawaits⟩ := h q hq
      exact ⟨selected', hsel', hbroker', fun hkind hlo hhi =>
        (hawaits hkind hlo hhi).planned hplanned⟩
    · rw [List.mem_singleton.1 hq, hid]
      exact ⟨selected, hsel, hbroker, fun hkind hlo hhi => hplanned.awaitsMail href hkind hlo hhi⟩

end Planned

/-- An accepted response time is a positive number of 32 bits. -/
theorem responseTime_bounds {broker : Broker}
    (hvalid : validateBroker broker.id broker = .ok broker) {endpoint : String}
    {options : ChannelOptions} (htaken : takenChannel broker = some (.email endpoint options)) :
    0 < responseTime options ∧ responseTime options < 4294967296 := by
  have hchannel := (validateBroker_ok hvalid).2.channels _ (List.mem_of_mem_head? htaken)
  simp only [validateChannel, validateOptions, Result.bind_eq_ok, refuse_eq_ok] at hchannel
  obtain ⟨_, -, _, -, hdays⟩ := hchannel
  unfold responseTime
  cases hoption : options.expectedResponseDays with
  | none => simp
  | some days =>
    rw [hoption, Option.any_some, decide_eq_true_eq] at hdays
    have hlt := days.isLt
    have hpos : 0 < days.val := by
      by_contra h
      exact hdays (by rw [Fin.lt_def]; exact Nat.lt_of_le_of_lt (Nat.le_of_not_lt h) (by decide))
    simp only
    omega

/-- The response time of an accepted e-mail channel is planned as it is. -/
theorem selectChannel_email {broker : Broker}
    (hvalid : validateBroker broker.id broker = .ok broker) {endpoint : String}
    {options : ChannelOptions}
    (htaken : takenChannel broker = some (.email endpoint options)) {channel : SelectedChannel}
    (hselect : selectChannel broker = some channel) :
    channel.kind = "email" ∧ channel.expectedResponseDays = responseTime options := by
  obtain ⟨hpos, -⟩ := responseTime_bounds hvalid htaken
  obtain ⟨channels, hchannels⟩ := List.head?_eq_some_iff.1 htaken
  unfold selectChannel at hselect
  rw [hchannels] at hselect
  cases hselect
  refine ⟨rfl, ?_⟩
  simp only [SelectedChannel.expectedResponseDays]
  unfold responseTime at hpos ⊢
  cases hoption : options.expectedResponseDays with
  | none => rfl
  | some days =>
    rw [hoption] at hpos
    exact if_pos (Int.natCast_pos.1 hpos)

/-- Whatever happens between a plan and its execution, as long as the last event of the request
names the planned response time: the deadline of a request that is sent is that many days after the
mail, in 64 bits of nanoseconds.  It is the response time up to 106751 days. -/
theorem deadline_planned (env : Env) (brokers : List Broker) (hvalid : Accepted brokers)
    (identityHash : String) (planOpts : PlanOpts) (planned : DateTime) (c₀ : Conn Store Mail)
    (href : Referential c₀.db) {result : PlanResult}
    (hplan : (planCampaign env brokers identityHash planOpts planned c₀).1 = .ok result)
    {request : PlanRequest} (hrequest : request ∈ result.requests) {broker : Broker}
    (hbroker : broker ∈ brokers) (hid : broker.id = request.brokerId) {endpoint : String}
    {options : ChannelOptions} (htaken : takenChannel broker = some (.email endpoint options)) :
    AwaitsMail (planCampaign env brokers identityHash planOpts planned c₀).2.db request.requestId
      (responseTime options) ∧
    (wrapI64 (responseTime options * nanosecondsPerDay) = durationDays (responseTime options) ↔
      responseTime options ≤ 106751) ∧
    ∀ c : Conn Store Mail, AwaitsMail c.db request.requestId (responseTime options) →
      ∀ campaignId opts source batchSize now, isGoZeroTime now.trunc = false →
        (∀ sender, opts.emailSender = some sender → Shallow sender) →
        let c' := (executeCampaign env campaignId opts source batchSize now c).2
        Sent c'.db request.requestId →
          ∃ state, c'.db.state request.requestId = some state ∧
            state.deadlineAt = (now.trunc.checkedAddSigned
              (wrapI64 (responseTime options * nanosecondsPerDay))).map Timeutil.formatIso := by
  obtain ⟨hlo, hhi⟩ := responseTime_bounds (hvalid.valid broker hbroker) htaken
  refine ⟨?_, wrapI64_days_iff hlo.le, ?_⟩
  · obtain ⟨selected, hsel, hname, hawaits⟩ := awaitsMail_planCampaign env brokers identityHash
      planOpts planned c₀ href hplan request hrequest
    obtain rfl : broker = selected.1 :=
      eq_of_id hvalid hbroker (mem_of_mem_selectedBrokers hvalid hsel) (hid.trans hname)
    obtain ⟨hkind, hdays⟩ := selectChannel_email (hvalid.valid _ hbroker) htaken
      (selectChannel_of_mem hsel)
    rw [← hdays] at hlo hhi ⊢
    exact hawaits hkind hlo hhi
  · intro c hawaits campaignId opts source batchSize now hzero hsender c' hsent
    exact dated_executeCampaign hawaits campaignId batchSize hzero hsender hlo hhi hsent

/-! ### A day too many -/

theorem accepted_acmeMail : Accepted [acmeMail] where
  nodup := List.nodup_singleton _
  valid := by
    intro broker hbroker
    rw [List.mem_singleton.1 hbroker]
    decide

theorem shallow_acceptAll : Shallow acceptAll := by
  intro earlier endpoint subject body result hresult
  cases hresult
  decide

/-- The deadline of a mail of 1970-01-01 with the usual response time. -/
theorem deadline_planned_acmeMail :
    ∃ state, (executeCampaign homeEnv "spring" (withSender acceptAll) (.ok (some jo)) 5 epoch
        plannedConn).2.db.state 1 = some state ∧
      state.deadlineAt = some "1970-02-15T00:00:00+00:00" := by
  obtain ⟨hawaits, -, hall⟩ := deadline_planned homeEnv [acmeMail] accepted_acmeMail ""
    { campaignId := "spring" } epoch Store.fresh.connect referential_fresh plan_acmeMail
    (List.mem_singleton_self _) (List.mem_singleton_self acmeMail) rfl rfl
  obtain ⟨state, hstate, hdeadline⟩ := hall plannedConn hawaits "spring" (withSender acceptAll)
    (.ok (some jo)) 5 epoch (by decide)
    (fun sender hsender => Option.some.inj hsender ▸ shallow_acceptAll)
    (by unfold Sent; decide)
  refine ⟨state, hstate, ?_⟩
  rw [hdeadline]
  decide

/-- The broker with a response time of 106752 days. -/
def acmeLate : Broker :=
  acme (.email "privacy@acme.example" { expectedResponseDays := some 106752 })

/-- A plan and a mail of 1970-01-01 to a broker. -/
def mailedConn (broker : Broker) : Conn Store Mail :=
  (executeCampaign homeEnv "spring" (withSender acceptAll) (.ok (some jo)) 5 epoch
    (planCampaign homeEnv [broker] "" { campaignId := "spring" } epoch Store.fresh.connect).2).2

theorem plan_acmeLate :
    (planCampaign (τ := Mail) homeEnv [acmeLate] "" { campaignId := "spring" } epoch
      Store.fresh.connect).1 =
        .ok ⟨"spring", 1, 1, 1, [⟨1, "acme", "Acme Data", "email", ""⟩]⟩ := by
  decide

theorem selected_acmeLate : selectedBrokers [acmeLate] { campaignId := "spring" } =
    [(acmeLate, .email "privacy@acme.example" none "" 106752)] := by
  decide

/-- A deadline that should be in the year 2262 is in the year 1677. -/
theorem not_deadline_planned :
    ¬ ∀ broker, Accepted [broker] → ∀ endpoint options,
      takenChannel broker = some (.email endpoint options) → Sent (mailedConn broker).db 1 →
        ∀ deadline, epoch.checkedAddSigned (durationDays (responseTime options)) = some deadline →
          1 ≤ deadline.year → deadline.year ≤ 9999 →
            ∃ state, (mailedConn broker).db.state 1 = some state ∧
              state.deadlineAt = some (Timeutil.formatIso deadline) := by
  intro h
  have hvalid : Accepted [acmeLate] :=
    ⟨List.nodup_singleton _, fun broker hbroker => by rw [List.mem_singleton.1 hbroker]; decide⟩
  have hsent : Sent (mailedConn acmeLate).db 1 := by
    unfold Sent
    decide
  obtain ⟨state, hstate, hdeadline⟩ := h acmeLate hvalid _ _ rfl hsent
    (.ofSecs 9223372800 (by decide)) (by decide) (by decide) (by decide)
  obtain ⟨selected, hsel, -, hawaits⟩ := awaitsMail_planCampaign homeEnv [acmeLate] ""
    { campaignId := "spring" } epoch Store.fresh.connect referential_fresh plan_acmeLate _
    (List.mem_singleton_self _)
  rw [selected_acmeLate, List.mem_singleton] at hsel
  subst hsel
  have hdated : Dated (mailedConn acmeLate).db 1 epoch 106752 :=
    dated_executeCampaign (hawaits rfl (by decide) (by decide)) "spring" 5 (by decide)
      (fun sender hsender => Option.some.inj hsender ▸ shallow_acceptAll) (by decide) (by decide)
      hsent
  obtain ⟨state', hstate', hwrapped⟩ := hdated
  rw [hstate, Option.some.injEq] at hstate'
  rw [hstate', hwrapped] at hdeadline
  revert hdeadline
  decide

end EraseMe.Campaign
