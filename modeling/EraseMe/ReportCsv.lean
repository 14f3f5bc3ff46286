import EraseMe.Library.Csv
import EraseMe.ReportData
import EraseMe.Reports

/-!
# The report as CSV

`exportCsv` writes a header and a line for each request of each campaign.  A reader of RFC 4180 gets
back the header and the texts of the requests (`csv_readsBack`), whatever characters they have.
-/

namespace EraseMe.Reporting

open Chrono Json Sqlite Storage

variable {τ : Type}

/-! ### Writing -/

/-- How the formats and the values outside the CSV cells are written. -/
structure Exports where
  double : ℤ → ℤ → String
  json : Json → Except String String
  html : Json → DateTime → Except String String

variable (exports : Exports)

def csvHeader : List String :=
  ["campaign_id", "request_id", "broker_id", "jurisdiction", "channel", "status", "sent_at",
    "acknowledged_at", "resolved_at", "deadline_at", "reminders_sent", "escalation_level"]

/-- A missing value is empty. -/
def cell : Option Json → String
  | none | some .null => ""
  | some (.string text) => text
  | some (.int n) => toString n
  | some (.float mantissa exponent) => exports.double mantissa exponent
  | some (.bool flag) => toString flag
  | some (.array _) | some (.object _) => ""

/-- A field, quoted if it has to be. -/
def field (value : List Char) : List Char :=
  if value.any (· ∈ [',', '"', '\r', '\n']) then
    '"' :: (value.flatMap fun c => if c = '"' then ['"', '"'] else [c]) ++ ['"']
  else value

/-- Texts with commas between them. -/
def joined : List (List Char) → List Char
  | [] => []
  | [value] => value
  | value :: values => value ++ ',' :: joined values

/-- The cells of a request. -/
def cells (campaign request : Json) : List String :=
  [cell exports (campaign.member "campaign_id"),
    cell exports (request.member "id"),
    cell exports (request.member "broker_id"),
    cell exports (request.member "jurisdiction"),
    cell exports (request.member "channel"),
    cell exports (request.member "current_status"),
    cell exports (request.member "sent_at"),
    cell exports (request.member "acknowledged_at"),
    cell exports (request.member "resolved_at"),
    cell exports (request.member "deadline_at"),
    cell exports (request.member "reminders_sent"),
    cell exports (request.member "escalation_level")]

/-- A record as a line. -/
def csvLine (values : List String) : List Char :=
  joined (values.map fun value => field value.toList) ++ ['\r', '\n']

/-- The report as CSV: a header and one record for each request. -/
def exportCsv (data : Json) : String :=
  String.ofList (joined (csvHeader.map String.toList) ++ ['\r', '\n'] ++
    (itemsOf data "campaigns").flatMap fun campaign =>
      (itemsOf campaign "requests").flatMap fun request => csvLine (cells exports campaign request))

/-- The report in a format. -/
def generateReport (data : Json) (format : String) (now : DateTime) : Except String String :=
  match String.ofList (format.toList.map Char.toLower) with
  | "json" => exports.json data
  | "csv" => .ok (exportCsv exports data)
  | "html" => exports.html data now
  | _ => .error ("unsupported format: " ++ format ++ "; choose html, json, or csv")

/-! ### Reading lines back -/

theorem isField_field (value : List Char) : Csv.IsField value (field value) := by
  rw [field]
  split_ifs with h
  · exact .quoted
  · refine .bare fun c hc => ?_
    rw [Csv.isText, decide_eq_true_eq]
    intro hmem
    exact h (List.any_eq_true.2 ⟨c, hc, decide_eq_true hmem⟩)

theorem isRecord_joined {values : List String} (h : values ≠ []) :
    Csv.IsRecord (values.map String.toList) (joined (values.map fun value => field value.toList)) := by
  induction values with
  | nil => exact absurd rfl h
  | cons value values ih =>
    cases values with
    | nil => exact .one (isField_field value.toList)
    | cons next values => exact .cons (isField_field value.toList) (ih (List.cons_ne_nil _ _))

/-- Lines are a file of their records. -/
theorem isFile_lines {records : List (List String)} (h : ∀ values ∈ records, values ≠ []) :
    Csv.IsFile (records.map fun values => values.map String.toList) (records.flatMap csvLine) := by
  induction records with
  | nil => exact .nil
  | cons values records ih =>
    rw [List.forall_mem_cons] at h
    rw [List.flatMap_cons, csvLine, List.append_assoc]
    exact .cons (isRecord_joined h.1) (ih h.2)

/-- The records of a report, by campaigns. -/
def recordsOf (data : Json) : List (List String) :=
  (itemsOf data "campaigns").flatMap fun campaign =>
    (itemsOf campaign "requests").map (cells exports campaign)

theorem toList_exportCsv (data : Json) :
    (exportCsv exports data).toList = (csvHeader :: recordsOf exports data).flatMap csvLine := by
  -- no name of the header has to be quoted
  have hheader : (csvHeader.map fun name => field name.toList) = csvHeader.map String.toList :=
    List.map_congr_left (by decide)
  rw [exportCsv, String.toList_ofList, List.flatMap_cons, csvLine, hheader, recordsOf,
    List.flatMap_assoc]
  simp only [List.flatMap_map]

/-- Any report value reads back as its cells. -/
theorem readFile_exportCsv (data : Json) :
    Csv.readFile (exportCsv exports data).toList =
      some ((csvHeader :: recordsOf exports data).map fun values => values.map String.toList) := by
  rw [Csv.readFile_eq_some, toList_exportCsv]
  refine isFile_lines fun values hvalues => ?_
  rcases List.mem_cons.1 hvalues with rfl | hvalues
  · exact List.cons_ne_nil _ _
  · obtain ⟨campaign, -, hvalues⟩ := List.mem_flatMap.1 hvalues
    obtain ⟨request, -, rfl⟩ := List.mem_map.1 hvalues
    exact List.cons_ne_nil _ _

/-! ### The values of a report -/

theorem cell_goMapOrder (value : Option Json) :
    cell exports (value.map goMapOrder) = cell exports value := by
  cases value with
  | none => rfl
  | some v => cases v <;> rfl

/-- The order of the members does not matter to the cells. -/
theorem recordsOf_goMapOrder (data : Json) :
    recordsOf exports (goMapOrder data) = recordsOf exports data := by
  have hcells : ∀ campaign request,
      cells exports (goMapOrder campaign) (goMapOrder request) = cells exports campaign request := by
    intro campaign request
    simp only [cells, member_goMapOrder, cell_goMapOrder]
  simp only [recordsOf, itemsOf_goMapOrder, List.flatMap_map, List.map_map]
  refine List.flatMap_congr fun campaign _ => List.map_congr_left fun request _ => ?_
  exact hcells campaign request

/-- The texts of a request. -/
def requestFields (campaign : CampaignRow) (request : RequestRow) : List String :=
  [campaign.id, toString request.id, request.brokerId, request.jurisdiction, request.channel,
    request.currentStatus, request.sentAt, request.acknowledgedAt, request.resolvedAt,
    request.deadlineAt, toString request.remindersSent, toString request.escalationLevel]

@[simp] theorem cell_string (text : String) : cell exports (some (.string text)) = text := rfl

@[simp] theorem cell_int (n : ℤ) : cell exports (some (.int n)) = toString n := rfl

@[simp] theorem cell_nullable (text : String) : cell exports (some (nullable text)) = text := by
  rw [nullable]
  split_ifs with h
  · rw [h]
    rfl
  · rfl

theorem cells_requestMap {campaign : CampaignRow} {value : Json}
    (h : value.member "campaign_id" = some (.string campaign.id)) (request : RequestRow)
    (events : List EventRow) :
    cells exports value (requestMap request events) = requestFields campaign request := by
  simp only [cells, h, requestMap, requestMembers, List.cons_append, List.nil_append,
    member_object, Map.get_cons, requestFields]
  simp

theorem id_requestMap (request : RequestRow) (events : List EventRow) :
    (requestMap request events).member "id" = some (.int request.id) := by
  simp [requestMap, requestMembers, Map.get_cons]

/-- A value with the members of a campaign that the cells are from. -/
structure Aggregates (requests : List RequestRow) (campaign : CampaignRow) (value : Json) :
    Prop where
  campaign_id : value.member "campaign_id" = some (.string campaign.id)
  requests_eq : ∃ events : RequestRow → List EventRow, itemsOf value "requests" =
    (requestsOf requests campaign).map fun request => requestMap request (events request)

theorem aggregates_aggregateCampaign {requests : List RequestRow} {campaign : CampaignRow}
    {build : Build} {events : BTreeMap ℤ (List EventRow)} {value : Json}
    (h : aggregateCampaign build campaign (requestsOf requests campaign) events = .ok value) :
    Aggregates requests campaign value := by
  rw [aggregateCampaign] at h
  obtain ⟨times, -, hvalue⟩ := Result.bind_eq_ok.1 h
  obtain ⟨reminders, -, hvalue⟩ := Result.bind_eq_ok.1 hvalue
  cases hvalue
  refine ⟨?_, fun request => (events.get request.id).getD [], ?_⟩
  · simp [Map.get_cons]
  · simp [itemsOf, statusMembers, Map.get_cons]

/-- A report lists campaigns and their requests in the order of the rows. -/
structure Lists (data : Json) (campaigns : List CampaignRow) (requests : List RequestRow) :
    Prop where
  campaigns_eq : (itemsOf data "campaigns").map (Json.member "campaign_id") =
    campaigns.map fun campaign => some (.string campaign.id)
  requests_eq : (itemsOf data "campaigns").map (fun campaign =>
      (itemsOf campaign "requests").map (Json.member "id")) =
    campaigns.map fun campaign =>
      (requestsOf requests campaign).map fun request => some (.int request.id)

theorem aggregate_eq_ok {campaigns : List CampaignRow} {requests : List RequestRow}
    {build : Build} {events : List EventRow} {values : List Json}
    (h : aggregate build campaigns requests events = .ok values) :
    List.Forall₂ (Aggregates requests) campaigns values := by
  refine (Result.mapM_eq_ok.1 h).imp fun campaign value hvalue => ?_
  rw [get_groupBy] at hvalue
  exact aggregates_aggregateCampaign hvalue

section Values

variable {build : Build} {now : DateTime} {campaigns : List CampaignRow} {requests : List RequestRow}
  {events : List EventRow} {data : Json}

theorem itemsOf_reportValue (h : reportValue build now campaigns requests events = .ok data) :
    ∃ values, List.Forall₂ (Aggregates requests) campaigns values ∧
      itemsOf data "campaigns" = values.map goMapOrder := by
  rw [reportValue] at h
  obtain ⟨values, hvalues, h⟩ := Result.bind_eq_ok.1 h
  obtain ⟨leaderboard, -, h⟩ := Result.bind_eq_ok.1 h
  obtain ⟨timeline, -, h⟩ := Result.bind_eq_ok.1 h
  obtain ⟨metrics, -, h⟩ := Result.bind_eq_ok.1 h
  cases h
  refine ⟨values, aggregate_eq_ok hvalues, ?_⟩
  rw [itemsOf_goMapOrder]
  simp [itemsOf, Map.get_cons]

theorem lists_reportValue (h : reportValue build now campaigns requests events = .ok data) :
    Lists data campaigns requests := by
  obtain ⟨values, hvalues, hitems⟩ := itemsOf_reportValue h
  refine ⟨?_, ?_⟩
  · rw [hitems]
    clear h hitems
    induction hvalues with
    | nil => rfl
    | cons hvalue hvalues ih =>
      rw [List.map_cons, List.map_cons, List.map_cons, ih, member_goMapOrder, hvalue.campaign_id]
      rfl
  · rw [hitems]
    clear h hitems
    induction hvalues with
    | nil => rfl
    | cons hvalue hvalues ih =>
      obtain ⟨events, hrequests⟩ := hvalue.requests_eq
      rw [List.map_cons, List.map_cons, List.map_cons, ih, itemsOf_goMapOrder, hrequests,
        List.map_map, List.map_map]
      refine congrArg (· :: _) (List.map_congr_left fun request _ => ?_)
      simp only [Function.comp_apply, member_goMapOrder, id_requestMap, Option.map_some]
      simp [goMapOrder]

/-- The cells of a report are the texts of its requests. -/
theorem recordsOf_reportValue (h : reportValue build now campaigns requests events = .ok data) :
    recordsOf exports data = campaigns.flatMap fun campaign =>
      (requestsOf requests campaign).map (requestFields campaign) := by
  obtain ⟨values, hvalues, hitems⟩ := itemsOf_reportValue h
  have hcells : recordsOf exports data = values.flatMap fun campaign =>
      (itemsOf campaign "requests").map (cells exports campaign) := by
    have hordered := recordsOf_goMapOrder exports (.object [("campaigns", .array values)])
    rw [recordsOf, itemsOf_goMapOrder] at hordered
    rw [recordsOf, hitems]
    simpa [recordsOf, itemsOf, Map.get_cons] using hordered
  rw [hcells]
  clear h hitems hcells
  induction hvalues with
  | nil => rfl
  | cons hvalue hvalues ih =>
    obtain ⟨events, hrequests⟩ := hvalue.requests_eq
    rw [List.flatMap_cons, List.flatMap_cons, ih, hrequests, List.map_map]
    refine congrArg (· ++ _) (List.map_congr_left fun request _ => ?_)
    exact cells_requestMap exports hvalue.campaign_id request _

end Values

/-! ### Reading a report back -/

/-- The rows of a report: campaigns of the store, and all requests of these. -/
structure Loaded (db : Store) (campaigns : List CampaignRow) (requests : List RequestRow) :
    Prop where
  campaigns_eq : ∃ stored : List Campaign, stored.Subperm db.campaigns ∧
    campaigns = stored.map campaignRow
  requests_perm : requests.Perm ((db.requests.rows.filter fun row =>
    row.2.campaignId ∈ campaigns.map CampaignRow.id).map fun row => requestRow (db.joined row))

/-- With different ids, the campaigns divide their requests. -/
theorem flatMap_requestsOf_perm {campaigns : List CampaignRow} {requests : List RequestRow}
    (hnodup : (campaigns.map CampaignRow.id).Nodup)
    (hmem : ∀ request ∈ requests, request.campaignId ∈ campaigns.map CampaignRow.id) :
    (campaigns.flatMap (requestsOf requests)).Perm requests := by
  induction campaigns generalizing requests with
  | nil =>
    cases requests with
    | nil => exact .nil
    | cons request requests => cases hmem request List.mem_cons_self
  | cons campaign campaigns ih =>
    rw [List.map_cons, List.nodup_cons] at hnodup
    have hrest : campaigns.flatMap (requestsOf requests) = campaigns.flatMap
        (requestsOf (requests.filter fun request => ¬ request.campaignId = campaign.id)) := by
      refine List.flatMap_congr fun other hother => ?_
      rw [requestsOf, requestsOf, List.filter_filter]
      refine List.filter_congr fun request _ => ?_
      by_cases h : request.campaignId = other.id
      · have hne : other.id ≠ campaign.id := fun he =>
          hnodup.1 (he ▸ List.mem_map_of_mem hother)
        simp [h, hne]
      · simp [h]
    have hothers : ∀ request ∈ requests.filter fun request => ¬ request.campaignId = campaign.id,
        request.campaignId ∈ campaigns.map CampaignRow.id := by
      intro request hrequest
      rw [List.mem_filter, decide_eq_true_eq] at hrequest
      exact (List.mem_cons.1 (hmem request hrequest.1)).resolve_left hrequest.2
    have hperm := ih hnodup.2 hothers
    rw [List.flatMap_cons, hrest]
    refine (hperm.append_left _).trans ?_
    simpa [requestsOf] using List.filter_append_perm
      (fun request => decide (request.campaignId = campaign.id)) requests

theorem Loaded.listed_perm {db : Store} {campaigns : List CampaignRow} {requests : List RequestRow}
    (h : Loaded db campaigns requests) (hkey : (db.campaigns.map Campaign.id).Nodup) :
    (campaigns.flatMap (requestsOf requests)).Perm requests := by
  obtain ⟨stored, ⟨l, hl, hsub⟩, rfl⟩ := h.campaigns_eq
  refine flatMap_requestsOf_perm ?_ fun request hrequest => ?_
  · rw [List.map_map]
    exact ((hl.map _).nodup_iff).1 (hkey.sublist (hsub.map _))
  · obtain ⟨row, hrow, rfl⟩ := List.mem_map.1 (h.requests_perm.mem_iff.1 hrequest)
    exact of_decide_eq_true (List.mem_filter.1 hrow).2

section Queries

variable {A : Reply → Prop} (db₀ : Store) (tr₀ : List τ)

theorem loadCampaigns_subperm (id : String) (all : Bool) :
    Triple A (fun db tr => db = db₀ ∧ tr = tr₀) (loadCampaigns id all)
      fun r db tr => db = db₀ ∧ tr = tr₀ ∧ match r with
        | .ok campaigns => ∃ stored : List Campaign, stored.Subperm db₀.campaigns ∧
            campaigns = stored.map campaignRow
        | .error _ => True := by
  refine Triple.query ?_ ?_
  · rintro r db tr - ⟨rfl, rfl⟩
    refine ⟨rfl, rfl, ?_⟩
    have hsorted : ((db.campaigns.zipIdx.insertionSort (CreatedGe r.rank)).map Prod.fst).Perm
        db.campaigns := by
      have hperm := (List.perm_insertionSort (CreatedGe r.rank) db.campaigns.zipIdx).map Prod.fst
      rwa [List.zipIdx_map_fst] at hperm
    by_cases hone : id ≠ "" ∧ ¬ all = true
    · exact ⟨_, List.filter_sublist.subperm, by rw [if_pos hone]⟩
    · by_cases hall : all = true
      · refine ⟨_, hsorted.subperm, ?_⟩
        rw [if_neg hone, if_pos hall, List.map_map]
        rfl
      · refine ⟨_, (List.take_sublist 1 _).subperm.trans hsorted.subperm, ?_⟩
        rw [if_neg hone, if_neg hall, List.map_take, List.map_map]
        rfl
  · rintro r db tr e - ⟨rfl, rfl⟩ -
    exact ⟨rfl, rfl, trivial⟩

theorem getReportData_spec (build : Build) (opts : ReportOpts) (now : DateTime) :
    Triple A (fun db (tr : List τ) => db = db₀ ∧ tr = tr₀) (getReportData build opts now)
      fun r _ _ => match r with
        | .ok data => ∃ campaigns requests, Loaded db₀ campaigns requests ∧
            (campaigns = [] ∧ data = emptyReport opts.campaignId now ∨
              ∃ events, reportValue build now campaigns requests events = .ok data)
        | .error _ => True := by
  refine Triple.bind (R := fun r db tr => (db = db₀ ∧ tr = tr₀) ∧ match r with
      | .ok campaigns => ∃ stored : List Campaign, stored.Subperm db₀.campaigns ∧
          campaigns = stored.map campaignRow
      | .error _ => True) (Triple.mapError ((loadCampaigns_subperm db₀ tr₀ _ _).conseq
        (fun _ _ h => h) fun r db tr h => ?_)) (fun campaigns => ?_) fun _ _ _ _ => trivial
  · cases r with
    | ok campaigns => exact ⟨⟨h.1, h.2.1⟩, h.2.2⟩
    | error e => exact ⟨⟨h.1, h.2.1⟩, trivial⟩
  · by_cases hempty : campaigns.isEmpty = true
    · rw [if_pos hempty]
      refine Triple.pure fun db tr h => ⟨campaigns, [], ⟨h.2, ?_⟩, Or.inl ?_⟩
      · rw [List.isEmpty_iff.1 hempty]
        simp
      · exact ⟨List.isEmpty_iff.1 hempty, rfl⟩
    · rw [if_neg hempty]
      refine Triple.ghost fun db tr h => ?_
      obtain ⟨⟨rfl, rfl⟩, hcampaigns⟩ := h
      refine Triple.bind (R := fun r _ _ => match r with
        | .ok requests => Loaded db campaigns requests
        | .error _ => True) (Triple.mapError ((loadRequests_spec db tr _).conseq (fun _ _ h => h)
          fun r db' tr' h => ?_)) (fun requests => ?_) fun _ _ _ _ => trivial
      · cases r with
        | ok requests => exact ⟨hcampaigns, h.2.2⟩
        | error e => trivial
      · refine Triple.bind (R := fun _ _ _ => Loaded db campaigns requests) ?_ (fun events => ?_)
          fun _ _ _ _ => trivial
        · refine Triple.mapError ?_
          rw [loadEvents]
          split_ifs
          · exact Triple.pure fun _ _ h => h
          · exact Triple.query (fun _ _ _ _ h => h) fun _ _ _ _ _ h _ => h
        · exact ((orStop_spec _ _).conseq (fun _ _ h => h) fun r db' tr' h => by
            cases r with
            | ok data => exact ⟨campaigns, requests, h.1, Or.inr ⟨events, h.2⟩⟩
            | error e => trivial)

end Queries

/-- The CSV of a report reads back: a header, and for each campaign of the report the texts of its
requests, a record of twelve fields for each request. -/
theorem csv_readsBack {build : Build} {opts : ReportOpts} {now : DateTime} {c c' : Conn Store τ}
    {data : Json} (h : getReportData build opts now c = (.ok data, c')) :
    ∃ campaigns requests, Loaded c.db campaigns requests ∧ Lists data campaigns requests ∧
      ((c.db.campaigns.map Campaign.id).Nodup →
        (campaigns.flatMap (requestsOf requests)).Perm requests) ∧
      ∃ csv, generateReport exports data "csv" now = .ok csv ∧ Csv.readFile csv.toList =
        some ((csvHeader :: campaigns.flatMap fun campaign =>
          (requestsOf requests campaign).map (requestFields campaign)).map
            fun values => values.map String.toList) := by
  have hrun := (getReportData_spec (A := AnyReply) c.db c.trace build opts now).run c ⟨rfl, rfl⟩
  rw [h] at hrun
  obtain ⟨campaigns, requests, hloaded, hdata⟩ := hrun
  have hrecords : recordsOf exports data = campaigns.flatMap fun campaign =>
      (requestsOf requests campaign).map (requestFields campaign) := by
    rcases hdata with ⟨rfl, rfl⟩ | ⟨events, hvalue⟩
    · simp [recordsOf, emptyReport, itemsOf, Map.get_cons]
    · exact recordsOf_reportValue exports hvalue
  refine ⟨campaigns, requests, hloaded, ?_, hloaded.listed_perm, exportCsv exports data, rfl, ?_⟩
  · rcases hdata with ⟨rfl, rfl⟩ | ⟨events, hvalue⟩
    · constructor <;> simp [emptyReport, itemsOf, Map.get_cons]
    · exact lists_reportValue hvalue
  · rw [readFile_exportCsv, hrecords]

/-- A campaign and a request with delimiters in their texts. -/
def quotedStore : Store :=
  { Store.fresh with
    campaigns := [⟨"spring, \"first\"", "2026-01-01 00:00:00", "initial", none⟩]
    requests := Table.empty.insert ⟨"acme\r\nlimited", "email", "spring, \"first\"",
      "2026-01-01 00:00:00", "GDPR", "gdpr-art17.md.j2", ""⟩ }

theorem csv_readsBack_quoted : ∃ data c',
    getReportData .wrapping ⟨"", true⟩ epoch (quotedStore.connect : Conn Store Unit) =
        (.ok data, c') ∧
      ∃ campaigns requests, Loaded quotedStore campaigns requests ∧
        Lists data campaigns requests ∧
        ((quotedStore.campaigns.map Campaign.id).Nodup →
          (campaigns.flatMap (requestsOf requests)).Perm requests) ∧
        ∃ csv, generateReport ⟨fun _ _ => "", fun _ => .ok "", fun _ _ => .ok ""⟩ data "csv" epoch =
          .ok csv ∧ Csv.readFile csv.toList =
            some ((csvHeader :: campaigns.flatMap fun campaign =>
              (requestsOf requests campaign).map (requestFields campaign)).map
                fun values => values.map String.toList) := by
  refine ⟨_, _, Prod.ext rfl rfl, ?_⟩
  have hrun : getReportData .wrapping ⟨"", true⟩ epoch (quotedStore.connect : Conn Store Unit) =
      (.ok _, _) := Prod.ext rfl rfl
  exact csv_readsBack _ hrun

end EraseMe.Reporting
