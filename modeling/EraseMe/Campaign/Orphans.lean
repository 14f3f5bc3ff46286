import EraseMe.Campaign.Fields
import EraseMe.Storage.AppendStatements

/-!
# Requests that a failed plan leaves

Planning a broker commits its request row first, and its `PLANNED` event with the projection in a
second write.  When a statement of that second write fails, the row stays without either: neither
the executor nor the rebuild sees it.  A plan leaves no such row exactly when the first statement
that fails, if any, writes the campaign or a request row (`orphans_iff`).
-/

namespace EraseMe.Campaign

open Chrono Identity Json Registry Sqlite Storage

variable {τ : Type}

/-- Every request row that was added has a `PLANNED` event and a state with that status. -/
def NoOrphans (db₀ db : Store) : Prop :=
  ∀ row ∈ db.requests.rows, row ∉ db₀.requests.rows →
    (∃ event ∈ db.events.rows,
      event.2.requestId = row.1 ∧ event.2.eventType = EventType.planned.asStr) ∧
    ∃ state, db.state row.1 = some state ∧ state.currentStatus = "PLANNED"

/-- The first failing statement of a plan for `n` brokers, if there is one, writes the campaign or
a request row.  A plan takes one statement for the campaign and six for each broker: the request
row, and then `BEGIN`, the event, the log, the state and `COMMIT`. -/
def FailsAtRow (replies : ℕ → Reply) (n : ℕ) : Prop :=
  ∀ k, FirstFault replies k → k < 1 + 6 * n → k = 0 ∨ k % 6 = 1

/-! ### The state of a planned request -/

theorem foldEvents_planned (arch : TargetArch) (requestId : ℤ) {events : List EventRecord}
    (h : ∀ event ∈ events, event.eventType = .planned) :
    (foldEvents arch requestId events).currentStatus = "PLANNED" := by
  rw [foldEvents_currentStatus]
  cases hlast : lastTransition events with
  | none => rfl
  | some eventType =>
    obtain ⟨event, hfind, rfl⟩ := Option.map_eq_some_iff.1 hlast
    have hmem : event ∈ events := List.mem_reverse.1 (List.mem_of_find?_eq_some hfind)
    rw [Option.bind_some, h event hmem]
    rfl

theorem eventType_decodeEvent {row : ℤ × EventColumns} {event : EventRecord}
    (h : decodeEvent row = some event) : event.eventType = .fromWire row.2.eventType := by
  unfold decodeEvent at h
  simp only [Option.bind_eq_bind, Option.bind_eq_some_iff, Option.some.injEq] at h
  obtain ⟨occurredAt, -, recordedAt, -, payload, -, rfl⟩ := h
  rfl

/-- A log of `PLANNED` events replays to events of that type. -/
theorem replayed_planned {db : Store} {requestId : ℤ}
    (h : ∀ row ∈ db.events.rows, row.2.requestId = requestId →
      row.2.eventType = EventType.planned.asStr) :
    ∀ event ∈ db.replayed requestId, event.eventType = .planned := by
  intro event hevent
  obtain ⟨row, hrow, hdecode⟩ := List.mem_filterMap.1 hevent
  rw [Store.replayRows, List.mem_insertionSort, mem_eventRows] at hrow
  rw [eventType_decodeEvent hdecode, h row hrow.1 hrow.2]
  exact EventType.fromWire_asStr (by simp)

/-! ### What holds between two brokers -/

/-- The plan so far left no orphan, and gave out ids without events. -/
structure Sound (db₀ db : Store) : Prop where
  noOrphans : NoOrphans db₀ db
  referential : Referential db
  seq_le : db₀.requests.seq ≤ db.requests.seq

section Sound

variable {env : Env} {identityHash : String} {opts : PlanOpts} {now : DateTime}
  {selected : Broker × SelectedChannel} {db₀ db db' : Store}

theorem sound_refl (h : Referential db) : Sound db db :=
  ⟨fun _ hrow hnew => absurd hrow hnew, h, le_rfl⟩

/-- A planned broker leaves no orphan. -/
theorem Sound.planned (h : Sound db₀ db)
    (hplanned : Planned env identityHash opts now selected db db') : Sound db₀ db' := by
  have href := hplanned.referential h.referential
  obtain ⟨createdAt, recordedAt, writtenAt, rfl⟩ := hplanned
  refine ⟨fun row hrow hnew => ?_, href, h.seq_le.trans (by simp [Store.withRequest])⟩
  rcases List.mem_append.1 hrow with hold | hlast
  · -- a request planned before keeps its event and its state
    have hle := db.requests.le_seq row hold
    obtain ⟨⟨event, hevent, hid, htype⟩, state, hstate, hstatus⟩ := h.noOrphans row hold hnew
    refine ⟨⟨event, List.mem_append_left _ hevent, hid, htype⟩, state, ?_, hstatus⟩
    rw [projected_state_of_ne _ _ _ _ (by omega)]
    exact hstate
  · rw [List.mem_singleton.1 hlast]
    refine ⟨⟨_, List.mem_append_right _ (List.mem_singleton_self _), rfl, rfl⟩, _,
      projected_state_self _ _ _ _, ?_⟩
    refine foldEvents_planned _ _ (replayed_planned fun event hevent hid => ?_)
    rcases List.mem_append.1 hevent with hevent | hevent
    · -- no event refers to an id that was not given out
      have hle := h.referential event hevent
      omega
    · rw [List.mem_singleton.1 hevent]
      rfl

/-- A request row without its second write is an orphan. -/
theorem Sound.not_noOrphans (h : Sound db₀ db) (columns : RequestColumns) :
    ¬ NoOrphans db₀ (db.withRequest columns) := by
  intro hno
  have hnew : (db.requests.seq + 1, columns) ∉ db₀.requests.rows := fun hmem => by
    have hle := db₀.requests.le_seq _ hmem
    have hseq := h.seq_le
    omega
  have hrow : (db.requests.seq + 1, columns) ∈ (db.withRequest columns).requests.rows :=
    List.mem_append_right _ (List.mem_singleton_self _)
  obtain ⟨⟨event, hevent, hid, -⟩, -⟩ := hno _ hrow hnew
  have hle := h.referential event hevent
  omega

end Sound

/-! ### One broker -/

section Run

variable (env : Env) (identityHash : String) (opts : PlanOpts) (now : DateTime)

/-- The request exists. -/
def HasRequest (requestId : ℤ) (db : Store) : Prop := (db.requests.find requestId).isSome

section Row

variable (brokerId channel campaignId jurisdiction templateId hash : String)

theorem takes_createRemovalRequest :
    (createRemovalRequest brokerId channel campaignId jurisdiction templateId hash :
      Db Store τ String ℤ).Takes 1 := by
  unfold createRemovalRequest
  exact Db.takes_statement _

theorem succeeds_createRemovalRequest :
    (createRemovalRequest brokerId channel campaignId jurisdiction templateId hash :
      Db Store τ String ℤ).Succeeds (fun _ => True) 1 fun id => HasRequest id := by
  unfold createRemovalRequest
  refine Db.succeeds_statement fun r db _ => ⟨_, _, rfl, ?_⟩
  rw [HasRequest, Table.find_insert, if_pos rfl]
  rfl

theorem createRemovalRequest_run_ok {c : Conn Store τ} (h : (c.replies 0).error = none) :
    ∃ columns, createRemovalRequest brokerId channel campaignId jurisdiction templateId hash c =
      (.ok (c.db.requests.seq + 1), { c.next with db := c.db.withRequest columns }) := by
  unfold createRemovalRequest
  exact ⟨_, statement_run_ok h rfl⟩

theorem createRemovalRequest_run_error {c : Conn Store τ} {message : String}
    (h : (c.replies 0).error = some message) :
    createRemovalRequest brokerId channel campaignId jurisdiction templateId hash c =
      (.error message, c.next) := by
  unfold createRemovalRequest
  exact statement_run_error h

end Row

variable (selected : Broker × SelectedChannel)

theorem takes_planBroker :
    (planBroker env identityHash opts now selected : Db Store τ PlanError PlanRequest).Takes 6 := by
  obtain ⟨broker, channel⟩ := selected
  exact ((takes_createRemovalRequest _ _ _ _ _ _).mapError _).bind fun id =>
    ((takes_appendAndProject env.arch id _ now).mapError _).bind fun _ => Db.takes_pure _

/-- Without a failure among its six statements a broker is planned. -/
theorem succeeds_planBroker :
    (planBroker env identityHash opts now selected : Db Store τ PlanError PlanRequest).Succeeds
      (fun _ => True) 6 fun _ _ => True := by
  obtain ⟨broker, channel⟩ := selected
  exact ((succeeds_createRemovalRequest _ _ _ _ _ _).mapError _).bind fun id =>
    ((succeeds_appendAndProject env.arch id _ now (by simp) (by simp)).mapError _).bind fun _ =>
      Db.succeeds_pure _ fun _ h => h

/-- When the row of a broker is not written nothing is. -/
theorem planBroker_of_fault {c : Conn Store τ} (h : (c.replies 0).error ≠ none) :
    (∃ e, (planBroker env identityHash opts now selected c).1 = .error e) ∧
      (planBroker env identityHash opts now selected c).2.db = c.db := by
  obtain ⟨broker, channel⟩ := selected
  obtain ⟨message, hmessage⟩ := Option.ne_none_iff_exists'.1 h
  have hrow : createRemovalRequest broker.id channel.kind opts.campaignId
      (resolveJurisdiction broker opts.jurisdiction) (resolveTemplate channel) identityHash c =
        (.error message, c.next) := createRemovalRequest_run_error _ _ _ _ _ _ hmessage
  have hrun : planBroker env identityHash opts now (broker, channel) c =
      (.error (.database message), c.next) := bind_run_error (mapError_run_error hrow)
  rw [hrun]
  exact ⟨⟨_, rfl⟩, rfl⟩

/-- A plan of a broker that fails after its row leaves the row. -/
theorem planBroker_of_row {c : Conn Store τ} (h : (c.replies 0).error = none) {e : PlanError}
    (herror : (planBroker env identityHash opts now selected c).1 = .error e) :
    ∃ columns,
      (planBroker env identityHash opts now selected c).2.db = c.db.withRequest columns := by
  obtain ⟨broker, channel⟩ := selected
  obtain ⟨columns, hrow⟩ := createRemovalRequest_run_ok broker.id channel.kind opts.campaignId
    (resolveJurisdiction broker opts.jurisdiction) (resolveTemplate channel) identityHash h
  generalize hc₁ : ({ c.next with db := c.db.withRequest columns } : Conn Store τ) = c₁ at hrow
  have hspec := (appendAndProject_spec (A := AnyReply) env.arch c₁.db c₁.trace
    (c.db.requests.seq + 1) .planned (plannedPayload broker channel) .system now).run c₁ ⟨rfl, rfl⟩
  have hbind : planBroker env identityHash opts now (broker, channel) c =
      (Db.mapError (appendAndProject env.arch (c.db.requests.seq + 1) .planned
        (plannedPayload broker channel) .system now) PlanError.projection >>= fun _ =>
          Pure.pure ⟨c.db.requests.seq + 1, broker.id, broker.name, channel.kind,
            resolveTemplate channel⟩) c₁ := bind_run_ok (mapError_run_ok hrow)
  rw [hbind] at herror ⊢
  refine ⟨columns, ?_⟩
  cases hrun : appendAndProject env.arch (c.db.requests.seq + 1) .planned
      (plannedPayload broker channel) .system now c₁ with
  | mk r c₂ =>
    rw [hrun] at hspec
    cases r with
    | ok a =>
      rw [bind_run_ok (mapError_run_ok hrun)] at herror
      cases herror
    | error e' =>
      rw [bind_run_error (mapError_run_error hrun)]
      rw [show c₂.db = c₁.db from hspec.2.1, ← hc₁]

/-! ### All brokers -/

/-- After the campaign was written, every failure but one of a request row leaves an orphan. -/
theorem noOrphans_forEach (l : List (Broker × SelectedChannel)) {db₀ : Store} {c : Conn Store τ}
    (h : Sound db₀ c.db) :
    NoOrphans db₀ (forEach (planBroker env identityHash opts now) l c).2.db ↔
      ∀ k, FirstFault c.replies k → k < 6 * l.length → k % 6 = 0 := by
  induction l generalizing c with
  | nil => exact ⟨fun _ k _ hk => absurd hk (Nat.not_lt_zero k), fun _ => h.noOrphans⟩
  | cons selected l ih =>
    have hspec := (planBroker_spec (A := AnyReply) env identityHash opts now selected c.db
      c.trace).run c ⟨rfl, rfl⟩
    have htakes := takes_planBroker (τ := τ) env identityHash opts now selected c
    rw [forEach, List.length_cons]
    cases hrun : planBroker env identityHash opts now selected c with
    | mk r c₁ =>
      rw [hrun] at hspec
      cases r with
      | ok request =>
        -- all six statements succeeded: the failures of the rest are six later
        obtain ⟨hnone, hshift⟩ := htakes request c₁ hrun
        rw [bind_run_ok hrun, bind_pure_run, ih (h.planned hspec.2.2.2), hshift]
        constructor
        · intro hrest k hk hlt
          have hge : 6 ≤ k := by
            by_contra hlow
            exact hk.1 (hnone k (by omega))
          obtain ⟨j, rfl⟩ := Nat.exists_eq_add_of_le' hge
          have := hrest j ((firstFault_add hnone).2 hk) (by omega)
          omega
        · intro hall k hk hlt
          have := hall (k + 6) ((firstFault_add hnone).1 hk) (by omega)
          omega
      | error e =>
        rw [bind_run_error hrun]
        by_cases hzero : (c.replies 0).error = none
        · -- the row was written, and a later statement of the same broker failed
          obtain ⟨columns, hdb⟩ := planBroker_of_row env identityHash opts now selected hzero
            (congrArg Prod.fst hrun)
          rw [hrun] at hdb
          have hfault : ¬ ∀ i < 6, (c.replies i).error = none := by
            intro hnone
            obtain ⟨request, c', hok, -⟩ :=
              succeeds_planBroker (τ := τ) env identityHash opts now selected c trivial hnone
            rw [hrun] at hok
            cases hok
          obtain ⟨k, hk, hfirst⟩ := exists_firstFault hfault
          rw [hdb]
          refine iff_of_false (h.not_noOrphans columns) fun hall => ?_
          have hmod := hall k hfirst (by omega)
          obtain rfl : k = 0 := by omega
          exact hfirst.1 hzero
        · obtain ⟨-, hdb⟩ := planBroker_of_fault env identityHash opts now selected hzero
          rw [hrun] at hdb
          have hfirst : FirstFault c.replies 0 := firstFault_zero hzero
          rw [hdb]
          refine iff_of_true h.noOrphans fun k hk _ => ?_
          rw [hk.eq hfirst]

theorem createCampaign_run_ok (id kind notes : String) {c : Conn Store τ}
    (h : (c.replies 0).error = none) :
    ∃ created campaigns, createCampaign id kind notes c =
      (.ok created, { c.next with db := { c.db with campaigns := campaigns } }) := by
  unfold createCampaign
  by_cases hthere : (c.db.campaigns.any fun campaign => campaign.id = id) = true
  · refine ⟨false, c.db.campaigns, statement_run_ok h ?_⟩
    rw [if_pos hthere]
  · refine ⟨true, c.db.campaigns ++ [⟨id, Timeutil.formatSql (c.replies 0).now,
      if kind = "" then "initial" else kind, some notes⟩], statement_run_ok h ?_⟩
    rw [if_neg hthere]

theorem createCampaign_run_error (id kind notes : String) {c : Conn Store τ} {message : String}
    (h : (c.replies 0).error = some message) :
    createCampaign id kind notes c = (.error message, c.next) := by
  unfold createCampaign
  exact statement_run_error h

/-- A plan leaves no orphan exactly when the first statement that fails, if one does, writes the
campaign or a request row. -/
theorem orphans_iff (brokers : List Broker) (c : Conn Store τ) (href : Referential c.db) :
    NoOrphans c.db (planCampaign env brokers identityHash opts now c).2.db ↔
      FailsAtRow c.replies (selectedBrokers brokers opts).length := by
  unfold planCampaign FailsAtRow
  by_cases hzero : (c.replies 0).error = none
  · obtain ⟨created, campaigns, hrun⟩ :=
      createCampaign_run_ok opts.campaignId "initial" opts.notes hzero
    generalize hc₁ : ({ c.next with db := { c.db with campaigns := campaigns } } :
      Conn Store τ) = c₁ at hrun
    have hsound : Sound c.db c₁.db := by
      subst hc₁
      exact ⟨fun _ hrow hnew => absurd hrow hnew, href, le_rfl⟩
    have hshift : c₁.replies = fun i => c.replies (i + 1) := by
      subst hc₁
      rfl
    have hnone : ∀ i < 1, (c.replies i).error = none := fun i hi => by
      rw [Nat.lt_one_iff.1 hi, hzero]
    rw [bind_run_ok (mapError_run_ok hrun), bind_pure_run,
      noOrphans_forEach env identityHash opts now _ hsound, hshift]
    constructor
    · intro hrest k hk hlt
      cases k with
      | zero => exact absurd hzero hk.1
      | succ k =>
        have := hrest k ((firstFault_add hnone).2 hk) (by omega)
        omega
    · intro hall k hk hlt
      have := hall (k + 1) ((firstFault_add hnone).1 hk) (by omega)
      omega
  · obtain ⟨message, hmessage⟩ := Option.ne_none_iff_exists'.1 hzero
    rw [bind_run_error (mapError_run_error (createCampaign_run_error _ _ _ hmessage))]
    have hfirst : FirstFault c.replies 0 := firstFault_zero hzero
    exact iff_of_true (sound_refl href).noOrphans fun k hk _ => Or.inl (hk.eq hfirst)

end Run

/-! ### A plan whose second write fails -/

/-- A failure of one statement. -/
def failing (k : ℕ) : ℕ → Reply := fun i => { Reply.plain with
  error := if i = k then some "database is locked" else none }

/-- A new store on a connection whose third statement fails, the first of the second write. -/
def lockedConn : Conn Store Mail := ⟨Store.fresh, [], failing 2⟩

/-- The request row is left without event and state. -/
theorem plan_leaves_orphan :
    ¬ NoOrphans lockedConn.db
      (planCampaign homeEnv [acmeMail] "" { campaignId := "spring" } epoch lockedConn).2.db := by
  have hrows : (planCampaign homeEnv [acmeMail] "" { campaignId := "spring" } epoch
      lockedConn).2.db.requests.rows.map Prod.fst = [1] ∧
      (planCampaign homeEnv [acmeMail] "" { campaignId := "spring" } epoch
        lockedConn).2.db.state 1 = none := by
    decide
  intro hno
  obtain ⟨row, hrow, hid⟩ := List.mem_map.1 (hrows.1 ▸ List.mem_singleton_self (1 : ℤ))
  obtain ⟨-, state, hstate, -⟩ := hno row hrow (by simp [lockedConn, Store.fresh, Table.empty])
  rw [hid, hrows.2] at hstate
  cases hstate

/-- When the row itself is not written nothing is left. -/
theorem plan_without_row :
    NoOrphans Store.fresh (planCampaign (τ := Mail) homeEnv [acmeMail] "" { campaignId := "spring" }
      epoch ⟨Store.fresh, [], failing 1⟩).2.db := by
  refine (orphans_iff homeEnv "" { campaignId := "spring" } epoch [acmeMail]
    ⟨Store.fresh, [], failing 1⟩ (fun row hrow => by cases hrow)).2 fun k hk _ => Or.inr ?_
  by_contra hne
  have hneq : k ≠ 1 := fun h => hne (by rw [h])
  exact hk.1 (by simp [failing, hneq])

end EraseMe.Campaign
