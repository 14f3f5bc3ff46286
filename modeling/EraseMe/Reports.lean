import EraseMe.Library.JsonPath
import EraseMe.Library.Result
import EraseMe.Reporting

/-!
# Reports and the projected statuses

The reports take a request for done when its `resolvedAt` is set, and no event clears that
column.  The status goes on: a rebuttal, a rescan or another send reopens a done request, and a
clicked confirmation link closes one without the column.  `reportsAgree_iff` says for which
histories the status report and the calendar agree with the projected statuses.
-/

namespace EraseMe.Reporting

open Chrono Json Sqlite Storage

variable {τ : Type} (arch : TargetArch)

/-! ### Values of a report -/

theorem member_goMapOrder (key : String) (v : Json) :
    (goMapOrder v).member key = (v.member key).map goMapOrder := by
  cases v with
  | object fields => rw [goMapOrder_object, member_object, member_object, get_sortedMap]
  | array items => rw [goMapOrder]; rfl
  | _ => rfl

theorem path_goMapOrder (keys : List String) (v : Json) :
    (goMapOrder v).path keys = (v.path keys).map goMapOrder := by
  induction keys generalizing v with
  | nil => rfl
  | cons key keys ih =>
    rw [path_cons, path_cons, member_goMapOrder]
    cases v.member key with
    | none => rfl
    | some w => exact ih w

theorem goMapOrderItems_eq_map (items : List Json) :
    goMapOrderItems items = items.map goMapOrder := by
  induction items with
  | nil => rfl
  | cons v items ih => rw [goMapOrderItems, ih, List.map_cons]

theorem mem_goMapOrderItems {items : List Json} {v : Json} :
    v ∈ goMapOrderItems items ↔ ∃ w ∈ items, goMapOrder w = v := by
  rw [goMapOrderItems_eq_map, List.mem_map]

/-- The items of an array member. -/
def itemsOf (value : Json) (key : String) : List Json :=
  match value.member key with
  | some (.array items) => items
  | _ => []

theorem itemsOf_goMapOrder (value : Json) (key : String) :
    itemsOf (goMapOrder value) key = (itemsOf value key).map goMapOrder := by
  rw [itemsOf, itemsOf, member_goMapOrder]
  cases value.member key with
  | none => rfl
  | some v =>
    cases v with
    | array items => simp [goMapOrder, goMapOrderItems_eq_map]
    | _ => rfl

/-- How often a status report counts a status. -/
def byStatus (report : Json) (status : String) : ℤ :=
  match report.path ["by_status", status] with
  | some (.int n) => n
  | _ => 0

/-- A calendar has an entry of a request. -/
def Listed (calendar : Json) (id : ℤ) : Prop :=
  ∃ weeks week entries entry, calendar.path ["weeks"] = some (.array weeks) ∧ week ∈ weeks ∧
    week.path ["entries"] = some (.array entries) ∧ entry ∈ entries ∧
    entry.path ["request_id"] = some (.int id)

/-! ### The counters -/

theorem get_bump {κ : Type} [LinearOrder κ] (counts : BTreeMap κ ℤ) (key key' : κ) :
    ((bump counts key).get key').getD 0 =
      (counts.get key').getD 0 + if key' = key then 1 else 0 := by
  rw [bump, BTreeMap.get_alter]
  by_cases h : key' = key
  · rw [if_pos h, if_pos h, h]
    rfl
  · rw [if_neg h, if_neg h, add_zero]

/-- The statuses are counted one by one. -/
theorem get_countStatuses (rows : List RequestRow) (status : String) :
    ((countStatuses rows).get status).getD 0 =
      rows.countP fun row => countedStatus row = status := by
  suffices h : ∀ counts : BTreeMap String ℤ,
      ((rows.foldl (fun counts row => bump counts (countedStatus row)) counts).get status).getD 0 =
        (counts.get status).getD 0 + rows.countP fun row => countedStatus row = status by
    rw [countStatuses, h, BTreeMap.get_empty, Option.getD_none, zero_add]
  induction rows with
  | nil => intro counts; simp
  | cons row rows ih =>
    intro counts
    rw [List.foldl_cons, ih, get_bump, List.countP_cons]
    by_cases h : countedStatus row = status
    · simp [h]
      omega
    · simp [h, show ¬ status = countedStatus row from fun e => h e.symm]

theorem get_map_int (entries : List (String × ℤ)) (key : String) :
    Map.get (entries.map fun entry => (entry.1, Json.int entry.2)) key =
      (entries.lookup key).map Json.int := by
  induction entries with
  | nil => rfl
  | cons entry entries ih =>
    obtain ⟨k, n⟩ := entry
    rw [List.map_cons, Map.get_cons, ih, BTreeMap.lookup_cons_eq]
    by_cases h : key = k
    · simp [h]
    · simp [h]

theorem byStatus_statusValue (campaignId : String) (now : DateTime) (requests : List RequestRow)
    (counts : StatusCounts) (status : String) :
    byStatus (statusValue campaignId now requests counts) status =
      requests.countP fun row => countedStatus row = status := by
  have hpath : (statusValue campaignId now requests counts).path ["by_status", status] =
      ((countStatuses requests).get status).map Json.int := by
    rw [statusValue, path_goMapOrder]
    have hraw : Json.path ["by_status", status] (Json.object [("by_status",
        countsToValue (countStatuses requests))]) =
        ((countStatuses requests).get status).map Json.int := by
      simp only [path_cons, member_object, Map.get_cons, if_pos, Option.bind_some, countsToValue,
        get_map_int, path_nil, BTreeMap.get]
      cases (countStatuses requests).entries.lookup status with
      | none => rfl
      | some n => rfl
    have hmember : ∀ fields : Map, Map.get fields "by_status" =
        some (countsToValue (countStatuses requests)) →
        Json.path ["by_status", status] (.object fields) =
          ((countStatuses requests).get status).map Json.int := by
      intro fields hfields
      rw [path_cons, member_object, hfields, ← hraw]
      rfl
    rw [hmember _ (by simp [Map.get_cons])]
    cases (countStatuses requests).get status with
    | none => rfl
    | some n => rw [Option.map_some, Option.map_some, goMapOrder]; all_goals simp
  rw [byStatus, hpath, ← get_countStatuses]
  cases (countStatuses requests).get status with
  | none => rfl
  | some n => rfl

theorem resolved_statusValue (campaignId : String) (now : DateTime) (requests : List RequestRow)
    (counts : StatusCounts) :
    (statusValue campaignId now requests counts).path ["totals", "resolved"] =
      some (.int counts.resolved) := by
  rw [statusValue, path_goMapOrder]
  simp [path_cons, Map.get_cons, goMapOrder]

/-- The loop adds a request to the resolved ones. -/
def Counted (now : DateTime) (request : RequestRow) : Prop :=
  ∀ counts, (countRequest now counts request).map StatusCounts.resolved =
    .ok (counts.resolved + 1)

theorem countRequest_resolved {now : DateTime} {counts counts' : StatusCounts}
    {request : RequestRow} (h : countRequest now counts request = .ok counts') :
    counts'.resolved = counts.resolved + if request.resolvedAt ≠ "" then 1 else 0 := by
  rw [countRequest] at h
  by_cases hresolved : request.resolvedAt ≠ ""
  · rw [if_pos hresolved] at h
    cases h
    rw [if_pos hresolved]
  · rw [if_neg hresolved] at h
    rw [if_neg hresolved, add_zero]
    obtain ⟨deadline, -, h⟩ := Result.bind_eq_ok.1 h
    obtain ⟨counted, hcounted, h⟩ := Result.bind_eq_ok.1 h
    obtain ⟨nextAction, -, h⟩ := Result.bind_eq_ok.1 h
    cases h
    cases deadline with
    | none =>
      cases hcounted
      rfl
    | some deadline =>
      obtain ⟨within7, -, hcounted⟩ := Result.bind_eq_ok.1 hcounted
      obtain ⟨within30, -, hcounted⟩ := Result.bind_eq_ok.1 hcounted
      cases hcounted
      rfl

theorem counted_iff {now : DateTime} {request : RequestRow} :
    Counted now request ↔ request.resolvedAt ≠ "" := by
  constructor
  · intro h
    have hstart := h .start
    cases hcount : countRequest now .start request with
    | error message => rw [hcount] at hstart; cases hstart
    | ok counts =>
      rw [hcount] at hstart
      have hsum := countRequest_resolved hcount
      intro hempty
      rw [if_neg (not_not.2 hempty), Except.ok.inj hstart] at hsum
      omega
  · intro h counts
    rw [countRequest, if_pos h]
    rfl

theorem foldlM_countRequest {now : DateTime} {requests : List RequestRow}
    {counts counts' : StatusCounts} (h : requests.foldlM (countRequest now) counts = .ok counts') :
    counts'.resolved =
      counts.resolved + requests.countP fun request => request.resolvedAt ≠ "" := by
  induction requests generalizing counts with
  | nil => cases h; simp
  | cons request requests ih =>
    obtain ⟨next, hnext, hrest⟩ := Result.foldlM_cons_eq_ok.1 h
    rw [ih hrest, countRequest_resolved hnext, List.countP_cons]
    by_cases hresolved : request.resolvedAt ≠ ""
    · simp [hresolved]
      omega
    · simp [hresolved]

/-! ### The entries of a calendar -/

/-- The buckets hold the entries listed so far. -/
theorem foldlM_listRequest {now horizon : DateTime} {requests : List RequestRow}
    {buckets buckets' : Buckets}
    (h : requests.foldlM (listRequest now horizon) buckets = .ok buckets') (entry : Json) :
    (∃ week ∈ buckets'.weeks.entries, entry ∈ week.2) ↔
      (∃ week ∈ buckets.weeks.entries, entry ∈ week.2) ∨ ∃ request ∈ requests, ∃ t,
        listedAt horizon request = .ok (some t) ∧ entry = entryValue request (daysFromNow now t) := by
  induction requests generalizing buckets with
  | nil => cases h; simp
  | cons request requests ih =>
    obtain ⟨next, hnext, hrest⟩ := Result.foldlM_cons_eq_ok.1 h
    rw [ih hrest]
    have hstep : (∃ week ∈ next.weeks.entries, entry ∈ week.2) ↔
        (∃ week ∈ buckets.weeks.entries, entry ∈ week.2) ∨ ∃ t,
          listedAt horizon request = .ok (some t) ∧
            entry = entryValue request (daysFromNow now t) := by
      obtain ⟨listed, hlisted, hnext⟩ := Result.bind_eq_ok.1 hnext
      cases listed with
      | none =>
        cases hnext
        simp [hlisted]
      | some t =>
        cases hnext
        simp only [hlisted, Except.ok.injEq, Option.some.injEq, exists_eq_left', BTreeMap.mem_alter]
        constructor
        · rintro ⟨week, rfl | ⟨hweek, -⟩, hentry⟩
          · rcases List.mem_append.1 hentry with hold | hnew
            · cases hget : buckets.weeks.get (weekName t) with
              | none => rw [hget] at hold; cases hold
              | some entries =>
                rw [hget] at hold
                have hmem : (weekName t, entries) ∈ buckets.weeks.entries :=
                  BTreeMap.mem_entries_iff.2 hget
                exact Or.inl ⟨_, hmem, hold⟩
            · exact Or.inr (List.mem_singleton.1 hnew)
          · exact Or.inl ⟨week, hweek, hentry⟩
        · rintro (⟨week, hweek, hentry⟩ | rfl)
          · by_cases hname : week.1 = weekName t
            · refine ⟨_, Or.inl rfl, List.mem_append_left _ ?_⟩
              rw [← hname, BTreeMap.mem_entries_iff.1 hweek]
              exact hentry
            · exact ⟨week, Or.inr ⟨hweek, hname⟩, hentry⟩
          · exact ⟨_, Or.inl rfl, List.mem_append_right _ (List.mem_singleton_self _)⟩
    rw [hstep]
    simp only [List.mem_cons, exists_eq_or_imp, or_assoc]

theorem path_entryValue (request : RequestRow) (days : ℤ) :
    (entryValue request days).path ["request_id"] = some (.int request.id) := by
  simp [entryValue, path_cons, Map.get_cons]

/-- A request is in the calendar if it is listed at some instant. -/
theorem listed_calendarValue {campaignId : String} {weeks : ℤ} {now horizon : DateTime}
    {requests : List RequestRow} {buckets : Buckets}
    (h : requests.foldlM (listRequest now horizon) .start = .ok buckets) {request : RequestRow}
    (hmem : request ∈ requests) {t : DateTime} (hlisted : listedAt horizon request = .ok (some t)) :
    Listed (calendarValue campaignId weeks now horizon buckets) request.id := by
  obtain ⟨week, hweek, hentry⟩ := (foldlM_listRequest h
    (entryValue request (daysFromNow now t))).2 (Or.inr ⟨request, hmem, t, hlisted, rfl⟩)
  refine ⟨goMapOrderItems (buckets.weeks.entries.map fun week =>
    .object [("week", .string week.1), ("entries", .array week.2)]),
    goMapOrder (.object [("week", .string week.1), ("entries", .array week.2)]),
    goMapOrderItems week.2, goMapOrder (entryValue request (daysFromNow now t)), ?_, ?_, ?_, ?_, ?_⟩
  · rw [calendarValue, path_goMapOrder]
    simp only [path_cons, member_object, Map.get_cons, path_nil]
    simp [goMapOrder]
  · exact mem_goMapOrderItems.2 ⟨_, List.mem_map.2 ⟨week, hweek, rfl⟩, rfl⟩
  · rw [path_goMapOrder]
    simp only [path_cons, member_object, Map.get_cons, path_nil]
    simp [goMapOrder]
  · exact mem_goMapOrderItems.2 ⟨_, hentry, rfl⟩
  · rw [path_goMapOrder, path_entryValue]
    simp [goMapOrder]

/-! ### The requests of a report -/

/-- The campaigns of a report. -/
def scopeIds (db : Store) (campaignId : String) : List String :=
  (db.campaigns.filter fun campaign => campaignId = "" ∨ campaign.id = campaignId).map Campaign.id

/-- The requests of the campaigns of a report. -/
def reported (db : Store) (campaignId : String) : List (ℤ × RequestColumns) :=
  db.requests.rows.filter fun row => row.2.campaignId ∈ scopeIds db campaignId

/-- The rows of a report, up to their order. -/
def reportedRows (db : Store) (campaignId : String) : List RequestRow :=
  (reported db campaignId).map fun row => requestRow (db.joined row)

section Queries

variable {A : Reply → Prop} (db₀ : Store) (tr₀ : List τ) (campaignId : String)

theorem loadCampaigns_spec :
    Triple A (fun db tr => db = db₀ ∧ tr = tr₀) (loadCampaigns campaignId (campaignId = ""))
      fun r db tr => db = db₀ ∧ tr = tr₀ ∧ match r with
        | .ok campaigns => (campaigns.map CampaignRow.id).Perm (scopeIds db₀ campaignId)
        | .error _ => True := by
  refine Triple.query ?_ ?_
  · rintro r db tr - ⟨rfl, rfl⟩
    refine ⟨rfl, rfl, ?_⟩
    have hid : CampaignRow.id ∘ campaignRow = Campaign.id := rfl
    by_cases h : campaignId = ""
    · have hsorted := ((List.perm_insertionSort (CreatedGe r.rank) db.campaigns.zipIdx).map
        fun campaign => campaign.1.id)
      have hfst : db.campaigns.zipIdx.map (fun campaign => campaign.1.id) =
          db.campaigns.map Campaign.id := by
        conv_rhs => rw [← List.zipIdx_map_fst 0 db.campaigns, List.map_map]
        rfl
      simp only [h, ne_eq, not_true_eq_false, false_and, if_false, decide_true, if_true, scopeIds,
        true_or, List.filter_true, List.map_map, ← hfst]
      exact hsorted
    · simp [h, scopeIds, List.map_map, hid]
  · rintro r db tr e - ⟨rfl, rfl⟩ -
    exact ⟨rfl, rfl, trivial⟩

theorem loadRequests_spec (ids : List String) :
    Triple A (fun db (tr : List τ) => db = db₀ ∧ tr = tr₀) (loadRequests ids)
      fun r db tr => db = db₀ ∧ tr = tr₀ ∧ match r with
        | .ok requests => requests.Perm ((db₀.requests.rows.filter
            fun row => row.2.campaignId ∈ ids).map fun row => requestRow (db₀.joined row))
        | .error _ => True := by
  refine Triple.query ?_ ?_
  · rintro r db tr - ⟨rfl, rfl⟩
    refine ⟨rfl, rfl, ?_⟩
    have hsorted := (List.perm_insertionSort (CreatedLe r.rank)
      ((db.requests.rows.map db.joined).filter fun row => row.campaignId ∈ ids)).map requestRow
    have hrows : ((db.requests.rows.map db.joined).filter fun row => row.campaignId ∈ ids).map
        requestRow = (db.requests.rows.filter fun row => row.2.campaignId ∈ ids).map
          fun row => requestRow (db.joined row) := by
      rw [List.filter_map, List.map_map]
      rfl
    exact hrows ▸ hsorted
  · rintro r db tr e - ⟨rfl, rfl⟩ -
    exact ⟨rfl, rfl, trivial⟩

theorem loadScope_spec :
    Triple A (fun db (tr : List τ) => db = db₀ ∧ tr = tr₀) (loadScope campaignId)
      fun r db tr => db = db₀ ∧ tr = tr₀ ∧ match r with
        | .ok scope => scope.2.Perm (reportedRows db₀ campaignId)
        | .error _ => True := by
  refine Triple.bind (loadCampaigns_spec db₀ tr₀ campaignId) (fun campaigns => ?_)
    fun _ _ _ h => ⟨h.1, h.2.1, trivial⟩
  by_cases hempty : campaigns.isEmpty = true
  · rw [if_pos hempty]
    refine Triple.pure fun db tr h => ⟨h.1, h.2.1, ?_⟩
    rw [List.isEmpty_iff.1 hempty] at h
    have hnil : scopeIds db₀ campaignId = [] := List.nil_perm.1 h.2.2
    simp [reportedRows, reported, hnil]
  · rw [if_neg hempty]
    refine Triple.ghost fun db tr h => ?_
    obtain ⟨rfl, rfl, hscope⟩ := h
    refine Triple.bind (loadRequests_spec db tr _) (fun requests => ?_)
      fun _ _ _ h => ⟨h.1, h.2.1, trivial⟩
    refine Triple.pure fun db' tr' h => ⟨h.1, h.2.1, ?_⟩
    have hfilter : (db.requests.rows.filter fun row =>
        row.2.campaignId ∈ campaigns.map CampaignRow.id) = reported db campaignId :=
      List.filter_congr fun row _ => by rw [decide_eq_decide, hscope.mem_iff]
    rw [hfilter] at h
    exact h.2.2

/-- The scope of a report, with its errors converted. -/
theorem mapError_loadScope_spec :
    Triple A (fun db (tr : List τ) => db = db₀ ∧ tr = tr₀)
      (Db.mapError (loadScope campaignId) ReportError.database)
      fun r db tr => (db = db₀ ∧ tr = tr₀) ∧ match r with
        | .ok scope => scope.2.Perm (reportedRows db₀ campaignId)
        | .error _ => True := by
  refine Triple.mapError ((loadScope_spec db₀ tr₀ campaignId).conseq (fun _ _ h => h)
    fun r db tr h => ?_)
  cases r with
  | ok scope => exact ⟨⟨h.1, h.2.1⟩, h.2.2⟩
  | error e => exact ⟨⟨h.1, h.2.1⟩, trivial⟩

theorem orStop_spec {α : Type} (P : Store → List τ → Prop) (result : Except String α) :
    Triple A P (orStop result) fun r db tr => P db tr ∧ match r with
      | .ok a => result = .ok a
      | .error _ => True := by
  cases result with
  | ok a => exact Triple.pure fun db tr h => ⟨h, rfl⟩
  | error message => exact Triple.fail fun db tr h => ⟨h, trivial⟩

theorem getCampaignStatus_spec (now : DateTime) :
    Triple A (fun db (tr : List τ) => db = db₀ ∧ tr = tr₀) (getCampaignStatus campaignId now)
      fun r db tr => (db = db₀ ∧ tr = tr₀) ∧ match r with
        | .ok status => ∃ requests : List RequestRow, ∃ counts,
            requests.Perm (reportedRows db₀ campaignId) ∧
            requests.foldlM (countRequest now) .start = .ok counts ∧
            status = statusValue campaignId now requests counts
        | .error _ => True := by
  refine Triple.bind (mapError_loadScope_spec db₀ tr₀ campaignId) (fun scope => ?_)
    fun _ _ _ h => ⟨h.1, trivial⟩
  refine Triple.bind (orStop_spec _ _) (fun counts => ?_) fun _ _ _ h => ⟨h.1.1, trivial⟩
  exact Triple.pure fun db tr h => ⟨h.1.1, scope.2, counts, h.1.2, h.2, rfl⟩

theorem getCalendar_spec (weeks : ℤ) (now : DateTime) :
    Triple A (fun db (tr : List τ) => db = db₀ ∧ tr = tr₀) (getCalendar campaignId weeks now)
      fun r db tr => (db = db₀ ∧ tr = tr₀) ∧ match r with
        | .ok calendar => ∃ horizon, ∃ requests : List RequestRow, ∃ buckets,
            horizonUntil now weeks = .ok horizon ∧
            requests.Perm (reportedRows db₀ campaignId) ∧
            requests.foldlM (listRequest now horizon) .start = .ok buckets ∧
            calendar = calendarValue campaignId weeks now horizon buckets
        | .error _ => True := by
  refine Triple.bind (orStop_spec _ _) (fun horizon => ?_) fun _ _ _ h => ⟨h.1, trivial⟩
  refine Triple.bind (R := fun r db tr => ((db = db₀ ∧ tr = tr₀) ∧ match r with
    | .ok scope => scope.2.Perm (reportedRows db₀ campaignId)
    | .error _ => True) ∧ horizonUntil now weeks = .ok horizon) ?_ (fun scope => ?_)
    fun _ _ _ h => ⟨h.1.1, trivial⟩
  · refine Triple.ghost fun db tr h => ?_
    exact ((mapError_loadScope_spec db₀ tr₀ campaignId).conseq (fun _ _ heq => heq.1 ▸ heq.2 ▸ h.1)
      fun r db' tr' hr => ⟨hr, h.2⟩)
  · refine Triple.bind (orStop_spec _ _) (fun buckets => ?_) fun _ _ _ h => ⟨h.1.1.1, trivial⟩
    exact Triple.pure fun db tr h =>
      ⟨h.1.1.1, horizon, scope.2, buckets, h.1.2, h.1.1.2, h.2, rfl⟩

end Queries

/-! ### Projected requests -/

theorem toUppercase_statusFor {t : EventType} {status : String} (h : statusFor t = some status) :
    toUppercase status = status ∧ status ≠ "" := by
  cases t <;> cases h <;> decide

/-- A projected status is counted under its own name. -/
theorem countedStatus_eq {events : List EventRecord} {id : ℤ} {request : RequestRow}
    (h : request.currentStatus = (foldEvents arch id events).currentStatus) :
    countedStatus request = request.currentStatus := by
  have hupper : toUppercase request.currentStatus = request.currentStatus ∧
      request.currentStatus ≠ "" := by
    rw [h, foldEvents_currentStatus]
    cases lastTransition events with
    | none => decide
    | some t =>
      rw [Option.bind_some]
      cases hstatus : statusFor t with
      | none => decide
      | some status => exact toUppercase_statusFor hstatus
  rw [countedStatus, hupper.1, if_neg hupper.2]

theorem pyTimestamp_eq_empty {value : String} : pyTimestamp value = "" ↔ value = "" := by
  rw [pyTimestamp]
  by_cases h : value.toList.getLast? = some 'Z'
  · rw [if_pos h]
    constructor
    · intro hempty
      have hlength := congrArg String.length hempty
      simp at hlength
    · rintro rfl
      cases h
  · rw [if_neg h]

/-- The columns of a request row that the reports decide by. -/
structure Projects (db : Store) (id : ℤ) (request : RequestRow) : Prop where
  currentStatus_eq : request.currentStatus = (foldEvents arch id (db.replayed id)).currentStatus
  resolvedAt_eq : request.resolvedAt = "" ↔
    (foldEvents arch id (db.replayed id)).resolvedAt = none
  nextActionAt_eq : request.nextActionAt = ""

theorem projects_requestRow {db : Store} (h : AllCurrent arch db) (row : ℤ × RequestColumns) :
    Projects arch db row.1 (requestRow (db.joined row)) := by
  have hresolved : ∀ t : DateTime, pyTimestamp (Timeutil.formatIso t) ≠ "" := fun t hempty =>
    Deadlines.formatIso_ne_empty t (pyTimestamp_eq_empty.1 hempty)
  cases hstate : db.state row.1 with
  | none =>
    -- without a state the request has no decodable event
    have hnil : db.replayed row.1 = [] := by
      by_contra hne
      obtain ⟨written, hcur⟩ := h row.1 (Or.inr hne)
      rw [hstate] at hcur
      cases hcur
    refine ⟨?_, ?_, ?_⟩
    · simp [requestRow, Store.joined, hstate, hnil, foldEvents, ProjectionState.new]
    · simp [requestRow, Store.joined, hstate, hnil, foldEvents, ProjectionState.new,
        pyTimestamp_eq_empty]
    · simp [requestRow, Store.joined, hstate, pyTimestamp_eq_empty]
  | some state =>
    obtain ⟨written, hcur⟩ := h row.1 (Or.inl (by rw [hstate]; rfl))
    rw [hstate] at hcur
    cases hcur
    refine ⟨?_, ?_, ?_⟩
    · simp [requestRow, Store.joined, hstate, stateColumns]
    · simp only [requestRow, Store.joined, hstate, stateColumns, Option.bind_some,
        foldEvents_resolvedAt]
      cases lastResolution (db.replayed row.1) with
      | none => simp [pyTimestamp_eq_empty]
      | some event => simp [hresolved]
    · simp [requestRow, Store.joined, hstate, stateColumns, foldEvents_nextActionAt,
        pyTimestamp_eq_empty]

/-! ### Agreement -/

/-- The status report counts as resolved the requests whose status is that of a done request, and
the calendar leaves no other request with a deadline within the horizon out. -/
structure ReportsAgree (requests : List RequestRow) (weeks : ℤ) (now : DateTime)
    (status calendar : Json) : Prop where
  counted_iff : ∀ request ∈ requests, Counted now request ↔ Resolved request.currentStatus
  resolved_eq : status.path ["totals", "resolved"] =
    some (.int (byStatus status "CONFIRMED" + byStatus status "REJECTED_FINAL"))
  left_out : ∀ request ∈ requests, ∀ deadline horizon,
    parseTime request.deadlineAt = .ok (some deadline) → horizonUntil now weeks = .ok horizon →
    deadline ≤ horizon → ¬ Listed calendar request.id → Resolved request.currentStatus

/-- A resolution is recorded exactly if the last status is that of a done request. -/
def Consistent (events : List EventRecord) : Prop :=
  (∃ event ∈ events, event.Resolves) ↔
    lastTransition events = some .confirmed ∨ lastTransition events = some .rejectedFinal ∨
      lastTransition events = some .confirmationLinkClicked

instance (events : List EventRecord) : Decidable (Consistent events) :=
  inferInstanceAs (Decidable ((∃ event ∈ events, event.Resolves) ↔ _))

theorem countP_resolved {requests : List RequestRow} (hcounted : ∀ request ∈ requests,
      request.resolvedAt ≠ "" ↔ Resolved request.currentStatus)
    (hstatus : ∀ request ∈ requests, countedStatus request = request.currentStatus) :
    requests.countP (fun request => request.resolvedAt ≠ "") =
      requests.countP (fun row => countedStatus row = "CONFIRMED") +
        requests.countP (fun row => countedStatus row = "REJECTED_FINAL") := by
  induction requests with
  | nil => rfl
  | cons request requests ih =>
    obtain ⟨hhead, htail⟩ := List.forall_mem_cons.1 hcounted
    obtain ⟨hname, hnames⟩ := List.forall_mem_cons.1 hstatus
    rw [List.countP_cons, List.countP_cons, List.countP_cons, ih htail hnames]
    simp only [decide_eq_true_eq, hhead, hname]
    by_cases hconfirmed : request.currentStatus = "CONFIRMED"
    · simp [Resolved, hconfirmed]
      omega
    · by_cases hrejected : request.currentStatus = "REJECTED_FINAL"
      · simp [Resolved, hrejected]
        omega
      · simp [Resolved, hconfirmed, hrejected]

/-- After any run of appends that project, with any statements failing, the status report and the
calendar agree with the projected statuses exactly if the history of every request in the scope is
consistent. -/
theorem reportsAgree_iff {c₀ c₁ c₂ : Conn Store τ} (hevents : ∀ id, c₀.db.eventRows id = [])
    (hstates : ∀ id, c₀.db.state id = none) {ops : List Operation}
    (hops : ∀ op ∈ ops, op.Projects) {campaignId : String} {weeks : ℤ} {now : DateTime}
    {status calendar : Json}
    (hstatus : getCampaignStatus campaignId now (runOperations arch ops c₀) = (.ok status, c₁))
    (hcalendar : getCalendar campaignId weeks now c₁ = (.ok calendar, c₂)) :
    ReportsAgree (reportedRows (runOperations arch ops c₀).db campaignId) weeks now status
        calendar ↔
      ∀ row ∈ reported (runOperations arch ops c₀).db campaignId,
        Consistent ((runOperations arch ops c₀).db.replayed row.1) := by
  have hcurrent : AllCurrent arch (runOperations arch ops c₀).db := by
    refine allCurrent_runOperations arch ops hops fun id h => ?_
    rcases h with h | h
    · rw [hstates] at h
      cases h
    · refine absurd ?_ h
      rw [Store.replayed, Store.replayRows, hevents]
      rfl
  have hreport := (getCampaignStatus_spec (A := AnyReply) _ _ campaignId now).run
    (runOperations arch ops c₀) ⟨rfl, rfl⟩
  rw [hstatus] at hreport
  obtain ⟨⟨hdb, -⟩, requests, counts, hperm, hcounts, rfl⟩ := hreport
  have hlist := (getCalendar_spec (A := AnyReply) _ _ campaignId weeks now).run c₁ ⟨rfl, rfl⟩
  rw [hcalendar] at hlist
  obtain ⟨-, horizon, listed, buckets, hhorizon, hperm', hbuckets, rfl⟩ := hlist
  have hdb : c₁.db = (runOperations arch ops c₀).db := hdb
  rw [hdb] at hperm'
  generalize (runOperations arch ops c₀).db = db at hcurrent hperm hperm' ⊢
  -- what the two tests say about the history of one request
  have hrow : ∀ row, let request := requestRow (db.joined row)
      (request.resolvedAt ≠ "" ↔ ∃ event ∈ db.replayed row.1, event.Resolves) ∧
      (Resolved request.currentStatus ↔ lastTransition (db.replayed row.1) = some .confirmed ∨
        lastTransition (db.replayed row.1) = some .rejectedFinal ∨
        lastTransition (db.replayed row.1) = some .confirmationLinkClicked) := by
    intro row
    have hprojects := projects_requestRow arch hcurrent row
    refine ⟨?_, ?_⟩
    · rw [ne_eq, hprojects.resolvedAt_eq, foldEvents_resolvedAt, Option.map_eq_none_iff,
        ← ne_eq, Option.ne_none_iff_isSome, lastResolution_isSome]
    · rw [hprojects.currentStatus_eq, resolved_iff]
  constructor
  · intro hagree row hmem
    have hcounted := hagree.counted_iff _ (List.mem_map.2 ⟨row, hmem, rfl⟩)
    rw [counted_iff, (hrow row).1, (hrow row).2] at hcounted
    exact hcounted
  · intro hconsistent
    have hiff : ∀ request ∈ reportedRows db campaignId,
        request.resolvedAt ≠ "" ↔ Resolved request.currentStatus := by
      intro request hmem
      obtain ⟨row, hrow', rfl⟩ := List.mem_map.1 hmem
      rw [(hrow row).1, (hrow row).2]
      exact hconsistent row hrow'
    refine ⟨fun request hmem => by rw [counted_iff]; exact hiff request hmem, ?_, ?_⟩
    · rw [resolved_statusValue, byStatus_statusValue, byStatus_statusValue,
        foldlM_countRequest hcounts]
      have hnames : ∀ request ∈ requests, countedStatus request = request.currentStatus := by
        intro request hmem
        obtain ⟨row, -, rfl⟩ := List.mem_map.1 (hperm.mem_iff.1 hmem)
        exact countedStatus_eq arch (projects_requestRow arch hcurrent row).currentStatus_eq
      rw [countP_resolved (fun request hmem => hiff request (hperm.mem_iff.1 hmem)) hnames]
      simp [StatusCounts.start]
    · intro request hmem deadline horizon' hparse hhorizon' hwithin hout
      rw [hhorizon] at hhorizon'
      cases hhorizon'
      refine (hiff request hmem).1 fun hopen => hout ?_
      obtain ⟨row, -, rfl⟩ := List.mem_map.1 hmem
      have hnext := (projects_requestRow arch hcurrent row).nextActionAt_eq
      refine listed_calendarValue hbuckets (hperm'.mem_iff.2 hmem) (t := deadline) ?_
      rw [listedAt, if_neg (not_not.2 hopen), markerOf, if_pos hnext, hparse]
      simp [Except.map, Option.filter, hwithin]

/-- A new database with one campaign. -/
def springStore : Store :=
  { Store.fresh with campaigns := [⟨"spring", "2026-01-01 00:00:00", "initial", none⟩] }

/-- A campaign with a request that is waited for until a time. -/
def waitingStore (deadline : String) : Store :=
  { springStore with
    requests := Table.empty.insert ⟨"acme", "email", "spring", "2026-01-01 00:00:00", "GDPR",
      "gdpr-art17.md.j2", ""⟩
    state := fun id => if id = 1 then some ⟨"AWAITING_ACK", 1, "2026-01-01 00:00:00",
      some "2026-01-01 00:00:00", none, none, some deadline, none, 1, 0⟩ else none }

/-- A request of the campaign, and its events at noon of the first days of January 2026. -/
def dailyEvents (types : List EventType) : List Operation :=
  .createRemovalRequest "acme" "email" "spring" "GDPR" "gdpr-art17.md.j2" "" ::
    (types.zipIdx.map fun (eventType, day) =>
      .appendAndProject 1 eventType [] .user (((epoch.checkedAddSigned
        (durationSeconds (1767268800 + 86400 * day)))).getD epoch))

theorem projects_dailyEvents (types : List EventType) :
    ∀ op ∈ dailyEvents types, op.Projects := by
  intro op hop
  rcases List.mem_cons.1 hop with rfl | hop
  · trivial
  · obtain ⟨event, -, rfl⟩ := List.mem_map.1 hop
    trivial

/-- The reports on a confirmed request agree with its status. -/
theorem reportsAgree_confirmed :
    ∃ status calendar c₁ c₂,
      getCampaignStatus "" (.ofSecs 1767268800 (by decide)) (runOperations .x86_64
        (dailyEvents [.sent, .confirmed]) (springStore.connect : Conn Store Unit)) =
          (.ok status, c₁) ∧
      getCalendar "" 8 (.ofSecs 1767268800 (by decide)) c₁ = (.ok calendar, c₂) ∧
      ReportsAgree (reportedRows (runOperations .x86_64 (dailyEvents [.sent, .confirmed])
        (springStore.connect : Conn Store Unit)).db "") 8 (.ofSecs 1767268800 (by decide)) status
        calendar := by
  refine ⟨_, _, _, _, Prod.ext rfl rfl, Prod.ext rfl rfl, ?_⟩
  have hevents : ∀ id, (springStore.connect : Conn Store Unit).db.eventRows id = [] :=
    fun _ => rfl
  refine (reportsAgree_iff .x86_64 hevents (fun _ => rfl) (projects_dailyEvents _)
    (Prod.ext rfl rfl) (Prod.ext rfl rfl)).2 ?_
  decide

/-- A request rejected and then rebutted is waited for again, and still counted as resolved. -/
theorem not_reportsAgree_rebutted :
    ∃ status calendar c₁ c₂,
      getCampaignStatus "" (.ofSecs 1767268800 (by decide)) (runOperations .x86_64
        (dailyEvents [.sent, .rejectedFinal, .rebuttalSent])
        (springStore.connect : Conn Store Unit)) = (.ok status, c₁) ∧
      getCalendar "" 8 (.ofSecs 1767268800 (by decide)) c₁ = (.ok calendar, c₂) ∧
      ¬ ReportsAgree (reportedRows (runOperations .x86_64
        (dailyEvents [.sent, .rejectedFinal, .rebuttalSent])
        (springStore.connect : Conn Store Unit)).db "") 8 (.ofSecs 1767268800 (by decide)) status
        calendar := by
  refine ⟨_, _, _, _, Prod.ext rfl rfl, Prod.ext rfl rfl, fun h => ?_⟩
  have hall : ∀ request ∈ reportedRows (runOperations .x86_64
      (dailyEvents [.sent, .rejectedFinal, .rebuttalSent])
      (springStore.connect : Conn Store Unit)).db "",
      request.resolvedAt ≠ "" → Resolved request.currentStatus := fun request hmem hset =>
    (h.counted_iff request hmem).1 (counted_iff.2 hset)
  exact absurd hall (by decide)

end EraseMe.Reporting
