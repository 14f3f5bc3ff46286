import EraseMe.Campaign.Recipient

/-!
# The identity fields a broker asks for

An e-mail channel of the registry may list the identity fields its broker requires.  The executor
looks for a list in the payload of the last event, under `required_fields`; the planner never
writes it there, so the check always falls back to a name and an e-mail address.  A request is
then mailed only with the listed fields exactly when every profile with a name and an e-mail
address has them (`Complete`, `fields_enforced_iff`).
-/

namespace EraseMe.Campaign

open Chrono Identity Json Registry Sqlite Storage

/-! ### The listed fields -/

/-- The fields the selected channel of a broker lists. -/
def listedFields (broker : Broker) : List RequiredField :=
  match broker.optOut with
  | .email _ options :: _ => options.requiredFields.getD []
  | _ => []

/-- The profile has a value for a field; any address is one for the state. -/
def HasValue (profile : Profile) : RequiredField → Prop
  | .fullName => profile.fullName ≠ ""
  | .email => profile.emailAddresses ≠ []
  | .address => profile.addresses ≠ []
  | .dateOfBirth => ∃ value, profile.dateOfBirth = some value ∧ value ≠ ""
  | .state => profile.addresses ≠ []

/-- The profile has a value for every field. -/
def HasValues (profile : Profile) (fields : List RequiredField) : Prop :=
  ∀ field ∈ fields, HasValue profile field

/-- A resolved profile with a name and an e-mail address has a value for every field. -/
def Complete (source : ProfileSource) (fields : List RequiredField) : Prop :=
  ∀ profile, source = .ok (some profile) → HasValue profile .fullName → HasValue profile .email →
    HasValues profile fields

/-- What a call mailed for the request, it mailed with a value for every field. -/
def MailedWith (requestId : ℤ) (source : ProfileSource) (fields : List RequiredField)
    (c c' : Conn Store Mail) : Prop :=
  ∀ mail ∈ c'.trace.drop c.trace.length, mail.requestId = requestId →
    ∃ profile, source = .ok (some profile) ∧ HasValues profile fields

/-! ### What the log asks for -/

/-- The field list an event row carries. -/
def storedFields (row : EventColumns) : Option Json :=
  match row.payloadJson with
  | .document (.object payload) => Map.get payload "required_fields"
  | _ => none

/-- No event of the request carries a field list. -/
def Unlisted (db : Store) (requestId : ℤ) : Prop :=
  ∀ row ∈ db.events.rows, row.2.requestId = requestId → storedFields row.2 = none

/-- Every event is of a request that was created. -/
def Referential (db : Store) : Prop :=
  ∀ row ∈ db.events.rows, row.2.requestId ≤ db.requests.seq

variable {A : Reply → Prop} {env : Env} {requestId : ℤ} {opts : ExecuteOpts}
  {source : ProfileSource} {now : DateTime} {db₀ db : Store} {tr₀ tr : List Mail}

theorem storedFields_eventColumns (id : ℤ) (eventType : EventType) (payload : Map)
    (source : Source) (occurredAt recordedAt : DateTime) :
    storedFields (eventColumns id eventType payload source occurredAt recordedAt) =
      (payload.get "required_fields").map goMapOrder := by
  simp only [storedFields, eventColumns, payloadText_eq, get_sortedMap]

theorem plannedPayload_unlisted (broker : Broker) (channel : SelectedChannel) :
    (plannedPayload broker channel).get "required_fields" = none := by
  simp [plannedPayload, Map.get_cons]

/-- A decoded event carries what its row does. -/
theorem get_decodeEvent {row : ℤ × EventColumns} {event : EventRecord}
    (h : decodeEvent row = some event) :
    event.payload.get "required_fields" = storedFields row.2 := by
  unfold decodeEvent at h
  simp only [Option.bind_eq_bind, Option.bind_eq_some_iff, Option.some.injEq] at h
  obtain ⟨occurredAt, -, recordedAt, -, payload, hpayload, rfl⟩ := h
  unfold storedFields
  unfold decodePayload at hpayload
  split at hpayload
  · cases hpayload
    simp_all
  · cases hpayload
    simp_all
  · split_ifs at hpayload
    cases hpayload
    simp_all
  · cases hpayload
  · cases hpayload

theorem get_lastPayload (h : Unlisted db requestId) :
    (lastPayload db requestId).get "required_fields" = none := by
  unfold lastPayload
  cases hlast : (db.replayed requestId).getLast? with
  | none => rfl
  | some event =>
    have hmem : event ∈ db.replayed requestId := List.mem_of_getLast? hlast
    obtain ⟨row, hrow, hdecode⟩ := List.mem_filterMap.1 hmem
    rw [Store.replayRows, List.mem_insertionSort, mem_eventRows] at hrow
    change event.payload.get "required_fields" = none
    rw [get_decodeEvent hdecode]
    exact h row hrow.1 hrow.2

theorem requiredFields_lastPayload (h : Unlisted db requestId) :
    requiredFields (lastPayload db requestId) = ["full_name", "email_addresses"] := by
  rw [requiredFields, get_lastPayload h]
  rfl

/-- Without a list the check asks for a name and an e-mail address. -/
theorem missingFields_eq_nil_iff (h : Unlisted db requestId) (profile : Profile) :
    missingFields profile (requiredFields (lastPayload db requestId)) = [] ↔
      HasValue profile .fullName ∧ HasValue profile .email := by
  rw [requiredFields_lastPayload h, missingFields, List.filter_eq_nil_iff]
  simp [profileFieldEmpty, HasValue]

/-! ### What planning and appending leave -/

/-- A planned request has its row, and no event of it carries a field list. -/
structure PlannedUnlisted (db : Store) (requestId : ℤ) (selected : Broker × SelectedChannel) :
    Prop where
  row : ∃ columns, db.requests.find requestId = some columns ∧ columns.channel = selected.2.kind
  unlisted : Unlisted db requestId

theorem Referential.withEvent {row : EventColumns} (h : Referential db)
    (hrow : row.requestId ≤ db.requests.seq) : Referential (db.withEvent row) := by
  intro r hr
  rcases List.mem_append.1 hr with hr | hr
  · exact h r hr
  · rw [List.mem_singleton.1 hr]
    exact hrow

theorem Referential.withRequest (h : Referential db) (columns : RequestColumns) :
    Referential (db.withRequest columns) := by
  intro row hrow
  have := h row hrow
  change row.2.requestId ≤ db.requests.seq + 1
  omega

theorem Unlisted.withEvent {row : EventColumns} (h : Unlisted db requestId)
    (hrow : row.requestId = requestId → storedFields row = none) :
    Unlisted (db.withEvent row) requestId := by
  intro r hr
  rcases List.mem_append.1 hr with hr | hr
  · exact h r hr
  · rw [List.mem_singleton.1 hr]
    exact hrow

/-- A new request has no events. -/
theorem Referential.unlisted_new (h : Referential db) (columns : RequestColumns) :
    Unlisted (db.withRequest columns) (db.requests.seq + 1) := by
  intro row hrow hid
  have := h row hrow
  omega

theorem unlisted_recorded {arch : TargetArch} {eventType : EventType} {payload : Map} {id : ℤ}
    (hpayload : payload.get "required_fields" = none)
    (h : Recorded arch id eventType payload now db₀ db) (hun : Unlisted db₀ requestId) :
    Unlisted db requestId := by
  obtain ⟨recordedAt, writtenAt, rfl⟩ := h
  refine hun.withEvent fun _ => ?_
  rw [storedFields_eventColumns, hpayload]
  rfl

/-- Planning one broker. -/
theorem Planned.referential {identityHash : String} {planOpts : PlanOpts}
    {selected : Broker × SelectedChannel}
    (h : Planned env identityHash planOpts now selected db₀ db) (href : Referential db₀) :
    Referential db := by
  obtain ⟨createdAt, recordedAt, writtenAt, rfl⟩ := h
  exact (href.withRequest _).withEvent (le_refl _)

theorem Planned.find {identityHash : String} {planOpts : PlanOpts}
    {selected : Broker × SelectedChannel}
    (h : Planned env identityHash planOpts now selected db₀ db) (id : ℤ) :
    ∃ columns, columns.channel = selected.2.kind ∧
      db.requests.find id = if id = db₀.requests.seq + 1 then some columns
        else db₀.requests.find id := by
  obtain ⟨createdAt, recordedAt, writtenAt, rfl⟩ := h
  exact ⟨plannedColumns identityHash planOpts selected createdAt, rfl, Table.find_insert ..⟩

theorem Planned.unlisted {identityHash : String} {planOpts : PlanOpts}
    {selected : Broker × SelectedChannel}
    (h : Planned env identityHash planOpts now selected db₀ db) (hun : Unlisted db₀ requestId) :
    Unlisted db requestId := by
  obtain ⟨createdAt, hrecorded⟩ := h
  exact unlisted_recorded (plannedPayload_unlisted _ _) hrecorded hun

/-- A new request is planned without a field list. -/
theorem Planned.plannedUnlisted {identityHash : String} {planOpts : PlanOpts}
    {selected : Broker × SelectedChannel}
    (h : Planned env identityHash planOpts now selected db₀ db) (href : Referential db₀) :
    PlannedUnlisted db (db₀.requests.seq + 1) selected := by
  obtain ⟨columns, hchannel, hfind⟩ := h.find (db₀.requests.seq + 1)
  rw [if_pos rfl] at hfind
  refine ⟨⟨columns, hfind, hchannel⟩, ?_⟩
  obtain ⟨createdAt, hrecorded⟩ := h
  exact unlisted_recorded (plannedPayload_unlisted _ _) hrecorded (href.unlisted_new _)

/-- The requests planned before stay as they are. -/
theorem Planned.keeps {identityHash : String} {planOpts : PlanOpts}
    {selected selected' : Broker × SelectedChannel}
    (h : Planned env identityHash planOpts now selected db₀ db)
    (hold : PlannedUnlisted db₀ requestId selected') : PlannedUnlisted db requestId selected' := by
  obtain ⟨columns', hfind', hchannel'⟩ := hold.row
  obtain ⟨columns, -, hfind⟩ := h.find requestId
  have hle : requestId ≤ db₀.requests.seq := Table.le_seq_of_find (by rw [hfind']; rfl)
  rw [if_neg (by omega)] at hfind
  exact ⟨⟨columns', hfind.trans hfind', hchannel'⟩, h.unlisted hold.unlisted⟩

/-- Every request of a plan has its row, its `PLANNED` event and no field list. -/
theorem plannedUnlisted_planCampaign (env : Env) (brokers : List Broker) (identityHash : String)
    (opts : PlanOpts) (now : DateTime) (c : Conn Store Mail) (href : Referential c.db)
    {result : PlanResult}
    (hplan : (planCampaign env brokers identityHash opts now c).1 = .ok result) :
    ∀ request ∈ result.requests, ∃ selected ∈ selectedBrokers brokers opts,
      request.brokerId = selected.1.id ∧
      PlannedIn (planCampaign env brokers identityHash opts now c).2.db request.requestId selected
        now ∧
      PlannedUnlisted (planCampaign env brokers identityHash opts now c).2.db request.requestId
        selected := by
  have hspec := planCampaign_spec (τ := Mail) (A := AnyReply) env brokers identityHash opts now
    (fun done db _ => Referential db ∧ ∀ request ∈ done, ∃ selected ∈ selectedBrokers brokers opts,
      request.brokerId = selected.1.id ∧ PlannedIn db request.requestId selected now ∧
        PlannedUnlisted db request.requestId selected)
    (fun db tr campaigns h => ⟨h.1, by simp⟩) ?_
  · have hpost := hspec.run c ⟨href, by simp⟩
    rw [hplan] at hpost
    exact hpost.2
  · rintro done selected request db₀ tr db hsel ⟨href, h⟩ hid hbroker hplanned
    refine ⟨hplanned.referential href, fun q hq => ?_⟩
    have hnew := hplanned.plannedUnlisted href
    have hkeep : ∀ id selected', PlannedUnlisted db₀ id selected' →
        PlannedUnlisted db id selected' := fun _ _ hold => hplanned.keeps hold
    obtain ⟨createdAt, recordedAt, writtenAt, rfl⟩ := hplanned
    rcases List.mem_append.1 hq with hq | hq
    · obtain ⟨selected', hsel', hbroker', hplanned', hold⟩ := h q hq
      exact ⟨selected', hsel', hbroker', hplanned'.mono fun row hrow => List.mem_append_left _ hrow,
        hkeep _ _ hold⟩
    · rw [List.mem_singleton.1 hq, hid]
      refine ⟨selected, hsel, hbroker, ⟨_, List.mem_append_right _ (List.mem_singleton_self _),
        recordedAt, rfl⟩, hnew⟩

/-- Appends that carry no field list for the request keep it without one. -/
theorem plannedUnlisted_runAppends (arch : TargetArch) (calls : List AppendCall)
    (c : Conn Store Mail) {selected : Broker × SelectedChannel}
    (h : PlannedUnlisted c.db requestId selected)
    (hcalls : ∀ call ∈ calls, call.requestId = requestId →
      call.payload.get "required_fields" = none) :
    PlannedUnlisted (runAppends arch calls c).2.db requestId selected := by
  refine runAppends_keeps (P := fun db => PlannedUnlisted db requestId selected) arch calls c
    (fun call hcall db hdb hap recordedAt now => ⟨hdb.row, hdb.unlisted.withEvent fun hid => ?_⟩) h
  rw [AppendCall.row, storedFields_eventColumns, hcalls call hcall hid]
  rfl

/-! ### References between the tables -/

theorem referential_fresh : Referential Store.fresh := by
  intro row hrow
  cases hrow

/-! ### The listed fields and the mail -/

section Calls

variable {c : Conn Store Mail} {campaignId : String} {batchSize : ℤ} {fields : List RequiredField}

/-- A mail of a request without a field list is handed over with a name and an e-mail address. -/
theorem HandsOver.hasValues {request : RemovalRequest} {profile : Profile}
    (hands : HandsOver db requestId opts source request profile) (hun : Unlisted db requestId)
    (hcomplete : Complete source fields) : HasValues profile fields := by
  obtain ⟨hname, hemail⟩ := (missingFields_eq_nil_iff hun profile).1 hands.fields_eq
  exact hcomplete profile hands.source_eq hname hemail

/-- A request without a field list is handed over for any profile with a name and an e-mail
address. -/
theorem handsOver_planned {selected : Broker × SelectedChannel}
    (h : PlannedUnlisted db requestId selected) (hkind : selected.2.kind = "email")
    (hlive : opts.dryRun = false) {profile : Profile} (hname : HasValue profile .fullName)
    (hemail : HasValue profile .email) :
    ∃ request, HandsOver db requestId opts (.ok (some profile)) request profile := by
  obtain ⟨columns, hfind, hchannel⟩ := h.row
  have hreq : db.request requestId = some { columns with id := requestId } := by
    rw [Store.request, hfind]
    rfl
  refine ⟨_, hreq, ?_, hlive, rfl, (missingFields_eq_nil_iff h.unlisted profile).2 ⟨hname, hemail⟩⟩
  simp [channelOf, hchannel, hkind]

theorem mailedWith_executeCampaign {selected : Broker × SelectedChannel}
    (h : PlannedUnlisted c.db requestId selected)
    (hcomplete : (∃ row ∈ batchOf c.db campaignId batchSize (c.replies 1).rank,
      row.id = requestId) → Complete source fields) (sender : EmailSender) :
    MailedWith requestId source fields c (executeCampaign env campaignId
      { opts with emailSender := some sender } source batchSize now c).2 := by
  rcases executeCampaign_cases env campaignId { opts with emailSender := some sender } source
    batchSize now c with ⟨-, htr, -⟩ | hbatch
  · intro mail hmail
    rw [htr, List.drop_length] at hmail
    cases hmail
  · obtain ⟨mails, rows, hadded, hturn⟩ := (executeBatch_turn (A := AnyReply) env
      { opts with emailSender := some sender } source now c.db c.trace requestId
      nodup_batchOf).run c.next.next ⟨rfl, rfl⟩
    rw [hbatch]
    intro mail hmail hid
    rw [hadded.trace_eq, List.drop_left] at hmail
    have hmem := hadded.mails_done mail hmail
    rw [hid] at hmem
    obtain ⟨done, db₁, tr₁, before, rowsBefore, db₂, tr₂, own, ownRows, after, rowsAfter, hfresh,
      hbefore, hexec, htr, -, rfl, -, hafter, -⟩ := hturn hmem
    have hown : own ≠ [] := by
      rintro rfl
      rw [List.append_nil] at hmail
      rcases List.mem_append.1 hmail with hmail | hmail
      · exact hfresh (hid ▸ hbefore.mails_done mail hmail)
      · exact hafter mail hmail hid
    rcases hexec with ⟨-, htr', -⟩ | ⟨request, profile, sender', hands, -⟩ |
      ⟨request, profile, -, -, -, htr', -⟩
    · rw [htr', List.self_eq_append_right] at htr
      exact absurd htr hown
    · have hands' := (hbefore.handsOver_iff hfresh).1 hands
      exact ⟨profile, hands.source_eq, hands'.hasValues h.unlisted (hcomplete (List.mem_map.1 hmem))⟩
    · rw [htr', List.self_eq_append_right] at htr
      exact absurd htr hown

theorem complete_of_executeCampaign {selected : Broker × SelectedChannel}
    (h : PlannedUnlisted c.db requestId selected) (hkind : selected.2.kind = "email")
    (hlive : opts.dryRun = false) (hc : ∀ n, Faultless (c.replies n))
    (hmailed : MailedWith requestId source fields c (executeCampaign env campaignId
      { opts with emailSender := some acceptAll } source batchSize now c).2)
    (hrow : ∃ row ∈ batchOf c.db campaignId batchSize (c.replies 1).rank, row.id = requestId) :
    Complete source fields := by
  rintro profile rfl hname hemail
  rcases executeCampaign_cases env campaignId { opts with emailSender := some acceptAll }
    (.ok (some profile)) batchSize now c with ⟨-, -, n, hn⟩ | hbatch
  · exact absurd (hc n) hn
  · obtain ⟨request, hands⟩ := handsOver_planned h hkind hlive hname hemail
    obtain ⟨-, mails, rows, hadded, haccepted⟩ := executeBatch_accepted not_canFail_faultless env
      opts _ now c.db c.trace nodup_batchOf hands c.next.next (fun n => hc (n + 2)) ⟨rfl, rfl⟩
    obtain ⟨⟨mail, hmail, hid, -⟩, -⟩ := haccepted (List.mem_map.2 hrow)
    rw [MailedWith, hbatch, hadded.trace_eq, List.drop_left] at hmailed
    obtain ⟨profile', hsource, hvalues⟩ := hmailed mail hmail hid
    cases hsource
    exact hvalues

end Calls

/-- The channel of a selected broker is its first one. -/
theorem selectChannel_of_mem {brokers : List Broker} {planOpts : PlanOpts}
    {selected : Broker × SelectedChannel} (h : selected ∈ selectedBrokers brokers planOpts) :
    selectChannel selected.1 = some selected.2 := by
  have hmatched : selected ∈ matchedBrokers brokers planOpts := by
    simp only [selectedBrokers] at h
    split_ifs at h
    · exact List.mem_of_mem_take h
    · exact h
  obtain ⟨broker, -, hpair⟩ := List.mem_filterMap.1 hmatched
  obtain ⟨channel, hchannel, rfl⟩ := Option.map_eq_some_iff.1 hpair
  exact hchannel

/-- Only an e-mail channel lists fields. -/
theorem listedFields_of_kind {broker : Broker} {channel : SelectedChannel}
    (h : selectChannel broker = some channel) (hkind : channel.kind ≠ "email") :
    listedFields broker = [] := by
  unfold selectChannel at h
  unfold listedFields
  split at h
  · cases h
  · cases h
    exact absurd rfl hkind
  · rename_i hoptOut
    rw [hoptOut]

/-- For a request of a plan and any events without a field list appended after it: the check never
blocks a profile with the listed fields, a name and an e-mail address, and an execution mails the
request only with the listed fields exactly when every such profile is complete. -/
theorem fields_enforced_iff (env : Env) (brokers : List Broker) (identityHash : String)
    (planOpts : PlanOpts) (planned : DateTime) (c₀ : Conn Store Mail) (href : Referential c₀.db)
    {result : PlanResult}
    (hplan : (planCampaign env brokers identityHash planOpts planned c₀).1 = .ok result)
    {request : PlanRequest} (hrequest : request ∈ result.requests) (calls : List AppendCall)
    (hcalls : ∀ call ∈ calls, call.requestId = request.requestId →
      call.payload.get "required_fields" = none) (c : Conn Store Mail)
    (hc : c = (runAppends env.arch calls
      (planCampaign env brokers identityHash planOpts planned c₀).2).2) :
    ∃ selected ∈ selectedBrokers brokers planOpts, request.brokerId = selected.1.id ∧
      selectChannel selected.1 = some selected.2 ∧
      PlannedIn c.db request.requestId selected planned ∧
      (∀ profile, HasValues profile (listedFields selected.1) → HasValue profile .fullName →
        HasValue profile .email →
        missingFields profile (requiredFields (lastPayload c.db request.requestId)) = []) ∧
      ∀ (opts : ExecuteOpts) (source : ProfileSource) (now : DateTime) campaignId batchSize,
        opts.dryRun = false →
          (((∃ row ∈ batchOf c.db campaignId batchSize (c.replies 1).rank,
              row.id = request.requestId) → Complete source (listedFields selected.1)) →
            ∀ sender, MailedWith request.requestId source (listedFields selected.1) c
              (executeCampaign env campaignId { opts with emailSender := some sender } source
                batchSize now c).2) ∧
          ((∀ n, Faultless (c.replies n)) →
            (∀ sender, MailedWith request.requestId source (listedFields selected.1) c
              (executeCampaign env campaignId { opts with emailSender := some sender } source
                batchSize now c).2) →
            (∃ row ∈ batchOf c.db campaignId batchSize (c.replies 1).rank,
              row.id = request.requestId) → Complete source (listedFields selected.1)) := by
  obtain ⟨selected, hselected, hbroker, hin, hunlisted⟩ := plannedUnlisted_planCampaign env brokers
    identityHash planOpts planned c₀ href hplan request hrequest
  have hchannel := selectChannel_of_mem hselected
  have h : PlannedUnlisted c.db request.requestId selected := by
    rw [hc]
    exact plannedUnlisted_runAppends env.arch calls _ hunlisted hcalls
  refine ⟨selected, hselected, hbroker, hchannel, ?_, fun profile _ hname hemail => ?_,
    fun opts source now campaignId batchSize hlive => ⟨fun hcomplete sender => ?_,
      fun hfault hmailed hrow => ?_⟩⟩
  · rw [hc]
    exact hin.mono fun row hrow => mem_rows_runAppends env.arch calls _ hrow
  · exact (missingFields_eq_nil_iff h.unlisted profile).2 ⟨hname, hemail⟩
  · exact mailedWith_executeCampaign h hcomplete sender
  · by_cases hkind : selected.2.kind = "email"
    · exact complete_of_executeCampaign h hkind hlive hfault (hmailed acceptAll) hrow
    · rw [listedFields_of_kind hchannel hkind]
      intro profile _ _ _ field hfield
      cases hfield

/-- A mail broker that asks for the name and the date of birth. -/
def acmeBirth : Broker := acme (.email "privacy@acme.example"
  { requiredFields := some [.fullName, .dateOfBirth], expectedResponseDays := some 45 })

/-- The connection after a plan of that broker. -/
def plannedBirth : Conn Store Mail :=
  (planCampaign homeEnv [acmeBirth] "" { campaignId := "spring" } epoch Store.fresh.connect).2

theorem plan_acmeBirth :
    (planCampaign (τ := Mail) homeEnv [acmeBirth] "" { campaignId := "spring" } epoch
      Store.fresh.connect).1 = .ok ⟨"spring", 1, 1, 1, [⟨1, "acme", "Acme Data", "email", ""⟩]⟩ := by
  decide

theorem selected_acmeBirth : selectedBrokers [acmeBirth] { campaignId := "spring" } =
    [(acmeBirth, acmeChannel)] := by
  decide

/-- With a date of birth the request is mailed with the listed fields. -/
theorem fields_enforced_born :
    let born : Profile := { jo with dateOfBirth := some "1990-01-02" }
    (executeCampaign homeEnv "spring" (withSender acceptAll) (.ok (some born)) 5 epoch
      plannedBirth).2.trace.map Mail.requestId = [1] ∧
    ∀ sender, MailedWith 1 (.ok (some born)) [.fullName, .dateOfBirth] plannedBirth
      (executeCampaign homeEnv "spring" (withSender sender) (.ok (some born)) 5 epoch
        plannedBirth).2 := by
  intro born
  refine ⟨by decide, fun sender => ?_⟩
  obtain ⟨selected, hsel, -, -, -, -, h⟩ := fields_enforced_iff homeEnv [acmeBirth] ""
    { campaignId := "spring" } epoch Store.fresh.connect referential_fresh plan_acmeBirth
    (List.mem_singleton_self _) [] (by simp) plannedBirth rfl
  rw [selected_acmeBirth, List.mem_singleton] at hsel
  rw [hsel] at h
  refine (h {} (.ok (some born)) epoch "spring" 5 rfl).1 (fun _ => ?_) sender
  rintro profile hsource - - field hfield
  cases hsource
  change field ∈ [RequiredField.fullName, RequiredField.dateOfBirth] at hfield
  rw [List.mem_cons, List.mem_singleton] at hfield
  rcases hfield with rfl | rfl
  · simp [HasValue, born, jo]
  · exact ⟨"1990-01-02", rfl, by simp⟩

/-- Without a date of birth the request is mailed all the same. -/
theorem mailed_without_birth :
    listedFields acmeBirth = [.fullName, .dateOfBirth] ∧ ¬ HasValue jo .dateOfBirth ∧
      (executeCampaign homeEnv "spring" (withSender acceptAll) (.ok (some jo)) 5 epoch
        plannedBirth).2.trace.map Mail.endpoint = ["privacy@acme.example"] ∧
      ¬ MailedWith 1 (.ok (some jo)) (listedFields acmeBirth) plannedBirth
        (executeCampaign homeEnv "spring" (withSender acceptAll) (.ok (some jo)) 5 epoch
          plannedBirth).2 := by
  have hbirth : ¬ HasValue jo .dateOfBirth := by
    rintro ⟨value, hvalue, -⟩
    cases hvalue
  refine ⟨rfl, hbirth, by decide, fun h => ?_⟩
  have hempty : plannedBirth.trace = [] := by decide
  have htrace : (executeCampaign homeEnv "spring" (withSender acceptAll) (.ok (some jo)) 5 epoch
      plannedBirth).2.trace.map Mail.requestId = [1] := by decide
  obtain ⟨mail, hmail, hid⟩ := List.map_eq_singleton_iff.1 htrace
  rw [MailedWith, hempty, List.length_nil, List.drop_zero] at h
  obtain ⟨profile, hsource, hvalues⟩ := h mail (by simp [hmail]) hid
  cases hsource
  exact hbirth (hvalues .dateOfBirth (by simp [listedFields, acmeBirth, acme]))

end EraseMe.Campaign
