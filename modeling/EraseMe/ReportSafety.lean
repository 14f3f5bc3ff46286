import EraseMe.Library.Queries
import EraseMe.Library.Slices
import EraseMe.ReportData
import EraseMe.Reports

/-!
# When the reports stop the program

A timestamp that no layout reads is cut at fixed offsets, the day of an event is cut off its
timestamp, the weeks of the calendar are a product and a sum of instants, and the reminders of a
campaign are summed.  `safe_iff` says for which stores and arguments none of these stops the
program: the offsets have to be boundaries of the texts, and the sums within their types.
-/

namespace EraseMe.Reporting

open Chrono Json Sqlite Storage

variable {τ : Type}

/-! ### Cuts -/

/-- An offset in octets is the end of a character, or the start. -/
def Boundary (n : ℕ) (s : List Char) : Prop := ∃ head, head <+: s ∧ Slices.size head = n

theorem cut_append (head rest : List Char) :
    cut (Slices.size head) (head ++ rest) = .ok (head, rest) := by
  induction head with
  | nil => cases rest <;> rfl
  | cons c head ih =>
    have hpos := c.utf8Size_pos
    obtain ⟨n, hn⟩ : ∃ n, Slices.size (c :: head) = n + 1 :=
      ⟨Slices.size (c :: head) - 1, by simp; omega⟩
    have hle : c.utf8Size ≤ n + 1 := by
      rw [← hn]
      simp
    have hrest : n + 1 - c.utf8Size = Slices.size head := by
      rw [← hn]
      simp
    rw [hn, List.cons_append, cut, if_pos hle, hrest, ih]
    rfl

theorem eq_append_of_cut {n : ℕ} {s head rest : List Char} (h : cut n s = .ok (head, rest)) :
    s = head ++ rest ∧ Slices.size head = n := by
  induction n, s using cut.induct generalizing head rest with
  | case1 s =>
    rw [cut] at h
    cases h
    exact ⟨rfl, rfl⟩
  | case2 n =>
    rw [cut] at h
    cases h
  | case3 n c s hle ih =>
    rw [cut, if_pos hle] at h
    obtain ⟨⟨head', rest'⟩, hcut, heq⟩ := Result.bind_eq_ok.1 h
    cases heq
    obtain ⟨rfl, hsize⟩ := ih hcut
    refine ⟨rfl, ?_⟩
    rw [Slices.size_cons, hsize]
    omega
  | case4 n c s hle =>
    rw [cut, if_neg hle] at h
    cases h

theorem isOk_cut {n : ℕ} {s : List Char} : (cut n s).isOk = true ↔ Boundary n s := by
  rw [Result.isOk_iff]
  constructor
  · rintro ⟨⟨head, rest⟩, h⟩
    obtain ⟨rfl, hsize⟩ := eq_append_of_cut h
    exact ⟨head, List.prefix_append head rest, hsize⟩
  · rintro ⟨head, ⟨rest, rfl⟩, rfl⟩
    exact ⟨_, cut_append head rest⟩

/-- Boundaries behind a first part are boundaries of the rest. -/
theorem boundary_append {n : ℕ} (head rest : List Char) :
    Boundary (Slices.size head + n) (head ++ rest) ↔ Boundary n rest := by
  constructor
  · rintro ⟨t, ht, hsize⟩
    rcases List.prefix_or_prefix_of_prefix ht (List.prefix_append head rest) with h | h
    · obtain ⟨u, rfl⟩ := h
      rw [Slices.size_append] at hsize
      exact ⟨[], List.nil_prefix, by rw [Slices.size_nil]; omega⟩
    · obtain ⟨u, rfl⟩ := h
      rw [Slices.size_append] at hsize
      exact ⟨u, (List.prefix_append_right_inj head).1 ht, by omega⟩
  · rintro ⟨t, ht, rfl⟩
    exact ⟨head ++ t, (List.prefix_append_right_inj head).2 ht, Slices.size_append head t⟩

theorem isOk_parseWithZone {s : List Char} :
    (parseWithZone s).isOk = true ↔ Boundary 19 s ∧ Boundary 20 s ∧ Boundary 25 s := by
  rw [parseWithZone, Result.isOk_bind_of (P := Boundary 20 s ∧ Boundary 25 s), isOk_cut]
  rintro ⟨head, rest⟩ hhead
  obtain ⟨rfl, hsize⟩ := eq_append_of_cut hhead
  rw [Result.isOk_bind_of (P := Boundary 25 (head ++ rest)), isOk_cut,
    ← boundary_append head rest, hsize]
  rintro ⟨one, rest'⟩ hone
  obtain ⟨rfl, hsize'⟩ := eq_append_of_cut hone
  rw [Result.isOk_bind_of (P := True) fun _ _ => iff_of_true rfl trivial, isOk_cut, and_true,
    ← boundary_append one rest', ← boundary_append head, hsize, hsize']

/-- A layout reads the text whole. -/
def readDirectly (s : List Char) : Option DateTime :=
  ((parseRfc3339 s).bind fun (reading, offset) =>
      DateTime.ofParts? (reading.secs - offset) reading.nanos) <|>
    parseNaive (wall (.literal 'T')) s <|> parseNaive (wall .space) s

/-- A timestamp can be read: by a layout, or it is too short to be cut, or it can be cut. -/
def Cuttable (value : String) : Prop :=
  (readDirectly value.toList).isSome = true ∨ value.utf8ByteSize < 25 ∨
    Boundary 19 value.toList ∧ Boundary 20 value.toList ∧ Boundary 25 value.toList

theorem parseTime_eq (value : String) :
    parseTime value =
      if value.toList = [] then .ok none
      else match readDirectly value.toList with
        | some t => .ok (some t)
        | none => if value.utf8ByteSize ≥ 25 then parseWithZone value.toList else .ok none := rfl

theorem isOk_parseTime {value : String} : (parseTime value).isOk = true ↔ Cuttable value := by
  rw [parseTime_eq, Cuttable]
  by_cases hempty : value.toList = []
  · rw [if_pos hempty]
    have hsize : value.utf8ByteSize = 0 := by
      rw [String.toList_eq_nil_iff] at hempty
      rw [hempty]
      rfl
    exact iff_of_true rfl (Or.inr (Or.inl (by omega)))
  · rw [if_neg hempty]
    cases readDirectly value.toList with
    | some t => exact iff_of_true rfl (Or.inl rfl)
    | none =>
      by_cases hsize : value.utf8ByteSize ≥ 25
      · simp only [if_pos hsize]
        rw [isOk_parseWithZone]
        have hshort : ¬ value.utf8ByteSize < 25 := by omega
        simp [hshort]
      · simp only [if_neg hsize]
        exact iff_of_true rfl (Or.inr (Or.inl (by omega)))

/-- The day can be cut off the timestamp of an event. -/
def DayCuttable (value : String) : Prop := value.utf8ByteSize < 10 ∨ Boundary 10 value.toList

theorem isOk_dayOf {event : EventRow} :
    (dayOf event).isOk = true ↔ DayCuttable event.occurredAt := by
  rw [dayOf, DayCuttable]
  by_cases hsize : event.occurredAt.utf8ByteSize ≥ 10
  · rw [if_pos hsize, Result.isOk_map, isOk_cut]
    have hshort : ¬ event.occurredAt.utf8ByteSize < 10 := by omega
    simp [hshort]
  · rw [if_neg hsize]
    exact iff_of_true rfl (Or.inl (by omega))

/-! ### Loops -/

theorem isOk_responseTime {row : RequestRow} :
    (responseTime row).isOk = true ↔ Cuttable row.sentAt ∧ Cuttable row.resolvedAt := by
  rw [responseTime, Result.isOk_bind_of (P := Cuttable row.resolvedAt), isOk_parseTime]
  intro sent _
  rw [Result.isOk_bind_of (P := True) fun _ _ => iff_of_true rfl trivial, isOk_parseTime, and_true]

theorem isOk_responseTimes {rows : List RequestRow} :
    (responseTimes rows).isOk = true ↔
      ∀ row ∈ rows, Cuttable row.sentAt ∧ Cuttable row.resolvedAt := by
  rw [responseTimes, Result.isOk_map, Result.isOk_mapM]
  exact forall₂_congr fun row _ => isOk_responseTime

theorem isOk_countBroker (stats : List BrokerStat) (request : RequestRow) :
    (countBroker stats request).isOk = true ↔
      Cuttable request.sentAt ∧ Cuttable request.resolvedAt := by
  have hcount (stat : BrokerStat) : (stat.count request).isOk = true ↔
      Cuttable request.sentAt ∧ Cuttable request.resolvedAt := by
    rw [BrokerStat.count, Result.isOk_bind_of (P := True) fun _ _ => iff_of_true rfl trivial,
      isOk_responseTime, and_true]
  induction stats with
  | nil => rw [countBroker, Result.isOk_map, hcount]
  | cons stat stats ih =>
    rw [countBroker]
    split_ifs
    · rw [Result.isOk_map, hcount]
    · rw [Result.isOk_map]
      exact ih

theorem isOk_brokerLeaderboard {rows : List RequestRow} :
    (brokerLeaderboard rows).isOk = true ↔
      ∀ row ∈ rows, Cuttable row.sentAt ∧ Cuttable row.resolvedAt := by
  rw [brokerLeaderboard, Result.isOk_map]
  exact Result.isOk_foldlM isOk_countBroker

theorem isOk_buildTimeline {events : List EventRow} :
    (buildTimeline events).isOk = true ↔ ∀ event ∈ events, DayCuttable event.occurredAt := by
  rw [buildTimeline, Result.isOk_map]
  refine Result.isOk_foldlM fun counts event => ?_
  rw [countEvent, Result.isOk_map, isOk_dayOf]

/-! ### Open requests -/

theorem isOk_daysLater {t : DateTime} {n : ℤ} :
    (daysLater t n).isOk = true ↔ (t.checkedAddSigned (durationDays n)).isSome = true := by
  rw [daysLater]
  cases t.checkedAddSigned (durationDays n) with
  | none => simp
  | some later => simp

/-- Some days later there is an instant, before the year 10000. -/
theorem isSome_daysLater {t : DateTime} (ht : t.year ≤ 9999) {n : ℤ} (hn : 0 ≤ n) (hle : n ≤ 30) :
    (t.checkedAddSigned (durationDays n)).isSome = true := by
  have hyear : t.secs / 86400 < Calendar.daysFromCivil ⟨10000, 1, 1⟩ := by
    rw [← Calendar.year_lt_iff]
    exact Int.lt_of_le_of_lt ht (by decide)
  have hdays : Calendar.daysFromCivil ⟨10000, 1, 1⟩ = 2932897 := by decide
  have hlo := t.secs_ge
  rw [isSome_checkedAddSigned_days, if_neg fun h => by omega]
  unfold minSecs maxSecs at *
  omega

theorem isOk_withinDays {now t : DateTime} (hnow : now.year ≤ 9999) {n : ℤ} (hn : 0 ≤ n)
    (hle : n ≤ 30) : (withinDays now t n).isOk = true := by
  rw [withinDays]
  split_ifs
  · rw [Result.isOk_map, isOk_daysLater]
    exact isSome_daysLater hnow hn hle
  · rfl

theorem isOk_countRequest {now : DateTime} (hnow : now.year ≤ 9999) (counts : StatusCounts)
    (request : RequestRow) : (countRequest now counts request).isOk = true ↔
      (request.resolvedAt = "" → Cuttable request.deadlineAt ∧ Cuttable request.nextActionAt) := by
  rw [countRequest]
  by_cases hopen : request.resolvedAt = ""
  · rw [if_neg (not_not.2 hopen), Result.isOk_bind_of (P := Cuttable request.nextActionAt),
      isOk_parseTime]
    · simp [hopen]
    intro deadline _
    have hdeadline (counts : StatusCounts) : (countDeadline now counts deadline).isOk = true := by
      cases deadline with
      | none => rfl
      | some deadline =>
        rw [countDeadline, Result.isOk_bind_of (P := True) fun within7 _ => ?_]
        · exact ⟨isOk_withinDays hnow (by decide) (by decide), trivial⟩
        · rw [Result.isOk_bind_of (P := True) fun _ _ => iff_of_true rfl trivial]
          exact iff_of_true ⟨isOk_withinDays hnow (by decide) (by decide), trivial⟩ trivial
    rw [Result.isOk_bind_of (P := Cuttable request.nextActionAt) fun counts _ => ?_]
    · exact and_iff_right (hdeadline _)
    · rw [Result.isOk_bind_of (P := True) fun _ _ => iff_of_true rfl trivial, isOk_parseTime,
        and_true]
  · rw [if_pos hopen]
    exact iff_of_true rfl fun h => absurd h hopen

theorem isOk_listRequest {now horizon : DateTime} (buckets : Buckets) (request : RequestRow) :
    (listRequest now horizon buckets request).isOk = true ↔
      (request.resolvedAt = "" → Cuttable (markerOf request).1) := by
  rw [listRequest, Result.isOk_bind_of (P := True) fun _ _ => iff_of_true rfl trivial, and_true,
    listedAt]
  by_cases hopen : request.resolvedAt = ""
  · rw [if_neg (not_not.2 hopen), Result.isOk_map, isOk_parseTime]
    simp [hopen]
  · rw [if_pos hopen]
    exact iff_of_true rfl fun h => absurd h hopen

/-! ### Sums -/

/-- A 64-bit integer. -/
def Fits (n : ℤ) : Prop := i64Min ≤ n ∧ n ≤ Json.i64Max

instance (n : ℤ) : Decidable (Fits n) :=
  inferInstanceAs (Decidable (i64Min ≤ n ∧ n ≤ Json.i64Max))

/-- Every sum of first counts is a 64-bit integer. -/
def SumsFit (counts : List ℤ) : Prop := ∀ n, Fits (counts.take n).sum

theorem isOk_foldlM_checked {counts : List ℤ} {s : ℤ} (hs : Fits s) :
    (counts.foldlM Build.checked.add s).isOk = true ↔ ∀ n, Fits (s + (counts.take n).sum) := by
  induction counts generalizing s with
  | nil =>
    rw [List.foldlM_nil]
    exact iff_of_true rfl fun n => by simpa using hs
  | cons count counts ih =>
    rw [List.foldlM_cons]
    by_cases hfits : Fits (s + count)
    · have hadd : Build.checked.add s count = .ok (s + count) := if_pos hfits
      rw [hadd]
      refine (ih hfits).trans ⟨fun h n => ?_, fun h n => ?_⟩
      · cases n with
        | zero => simpa using hs
        | succ n =>
          rw [List.take_succ_cons, List.sum_cons, ← add_assoc]
          exact h n
      · have hnext := h (n + 1)
        rwa [List.take_succ_cons, List.sum_cons, ← add_assoc] at hnext
    · have hadd : Build.checked.add s count = .error "attempt to add with overflow" := if_neg hfits
      rw [hadd]
      refine iff_of_false (by simp [bind, Except.bind]) fun h => hfits ?_
      simpa using h 1

theorem isOk_totalReminders (requests : List RequestRow) :
    (∀ build, (totalReminders build requests).isOk = true) ↔
      SumsFit (requests.map RequestRow.remindersSent) := by
  have hchecked : (totalReminders .checked requests).isOk = true ↔
      SumsFit (requests.map RequestRow.remindersSent) := by
    have hzero : Fits 0 := ⟨by decide, by decide⟩
    have hsums : ((requests.map RequestRow.remindersSent).foldlM Build.checked.add 0).isOk = true ↔
        ∀ n, Fits (0 + ((requests.map RequestRow.remindersSent).take n).sum) :=
      isOk_foldlM_checked hzero
    simp only [List.foldlM_map, zero_add] at hsums
    exact hsums
  constructor
  · exact fun h => hchecked.1 (h .checked)
  · rintro h (_ | _)
    · exact hchecked.2 h
    · refine (Result.isOk_foldlM (P := fun _ => True) fun s request => ?_).2 fun _ _ => trivial
      rw [Build.add]
      split_ifs
      · exact iff_of_true rfl trivial
      · exact iff_of_true rfl trivial

/-- The product of the weeks and the instant they end at. -/
theorem fits_of_isSome {now : DateTime} {weeks : ℤ}
    (h : (now.checkedAddSigned (durationDays (weeks * 7))).isSome = true) : Fits (weeks * 7) := by
  have hlo := now.secs_ge
  have hhi := now.secs_le
  rw [isSome_checkedAddSigned_days] at h
  unfold Fits i64Min Json.i64Max
  unfold minSecs maxSecs at *
  split_ifs at h <;> omega

/-! ### The report -/

theorem isOk_successMetrics {requests : List RequestRow} :
    (successMetrics requests).isOk = true ↔
      ∀ row ∈ requests, Cuttable row.sentAt ∧ Cuttable row.resolvedAt := by
  rw [successMetrics]
  by_cases hempty : requests.isEmpty = true
  · rw [if_pos hempty, List.isEmpty_iff.1 hempty]
    exact iff_of_true rfl fun row hrow => nomatch hrow
  · rw [if_neg hempty]
    show (responseTimes requests >>= _).isOk = true ↔ _
    rw [Result.isOk_bind_of (P := True) fun _ _ => iff_of_true rfl trivial, isOk_responseTimes,
      and_true]

theorem isOk_aggregateCampaign {build : Build} {campaign : CampaignRow}
    {requests : List RequestRow} {events : BTreeMap ℤ (List EventRow)} :
    (aggregateCampaign build campaign requests events).isOk = true ↔
      (∀ row ∈ requests, Cuttable row.sentAt ∧ Cuttable row.resolvedAt) ∧
        (totalReminders build requests).isOk = true := by
  rw [aggregateCampaign]
  show (responseTimes requests >>= _).isOk = true ↔ _
  rw [Result.isOk_bind_of (P := (totalReminders build requests).isOk = true), isOk_responseTimes]
  intro times _
  rw [Result.isOk_bind_of (P := True) fun _ _ => iff_of_true rfl trivial, and_true]

theorem isOk_brokerLeaderboardValue {requests : List RequestRow} :
    (brokerLeaderboardValue requests).isOk = true ↔
      ∀ row ∈ requests, Cuttable row.sentAt ∧ Cuttable row.resolvedAt := by
  rw [brokerLeaderboardValue, Result.isOk_map, isOk_brokerLeaderboard]

theorem isOk_reportValue {build : Build} {now : DateTime} {campaigns : List CampaignRow}
    {requests : List RequestRow} {events : List EventRow} :
    (reportValue build now campaigns requests events).isOk = true ↔
      (aggregate build campaigns requests events).isOk = true ∧
      (brokerLeaderboardValue requests).isOk = true ∧ (buildTimeline events).isOk = true ∧
      (successMetrics requests).isOk = true := by
  rw [reportValue, Result.isOk_bind_of (P := (brokerLeaderboardValue requests).isOk = true ∧
    (buildTimeline events).isOk = true ∧ (successMetrics requests).isOk = true)]
  intro values _
  rw [Result.isOk_bind_of (P := (buildTimeline events).isOk = true ∧
    (successMetrics requests).isOk = true)]
  intro leaderboard _
  rw [Result.isOk_bind_of (P := (successMetrics requests).isOk = true)]
  intro timeline _
  rw [Result.isOk_bind_of (P := True) fun _ _ => iff_of_true rfl trivial, and_true]

/-- A report value is made in both builds if every text can be cut and the reminders of each campaign
can be summed. -/
theorem isOk_reportValue_iff {now : DateTime} {campaigns : List CampaignRow}
    {requests : List RequestRow} {events : List EventRow} :
    (∀ build, (reportValue build now campaigns requests events).isOk = true) ↔
      (∀ row ∈ requests, Cuttable row.sentAt ∧ Cuttable row.resolvedAt) ∧
      (∀ event ∈ events, DayCuttable event.occurredAt) ∧
      ∀ campaign ∈ campaigns,
        SumsFit ((requestsOf requests campaign).map RequestRow.remindersSent) := by
  have haggregate (build : Build) : (aggregate build campaigns requests events).isOk = true ↔
      ∀ campaign ∈ campaigns, (∀ row ∈ requestsOf requests campaign,
        Cuttable row.sentAt ∧ Cuttable row.resolvedAt) ∧
        (totalReminders build (requestsOf requests campaign)).isOk = true := by
    rw [aggregate, Result.isOk_mapM]
    refine forall₂_congr fun campaign _ => ?_
    rw [isOk_aggregateCampaign, get_groupBy]
    rfl
  simp only [isOk_reportValue, haggregate, isOk_brokerLeaderboardValue, isOk_buildTimeline,
    isOk_successMetrics]
  constructor
  · intro h
    refine ⟨(h .checked).2.1, (h .checked).2.2.1, fun campaign hcampaign => ?_⟩
    exact (isOk_totalReminders _).1 fun build => ((h build).1 campaign hcampaign).2
  · rintro ⟨htexts, hdays, hsums⟩ build
    refine ⟨fun campaign hcampaign => ⟨fun row hrow => ?_, ?_⟩, htexts, hdays, htexts⟩
    · exact htexts row (List.mem_filter.1 hrow).1
    · exact (isOk_totalReminders _).2 (hsums campaign hcampaign) build

/-! ### What the queries return -/

/-- The campaigns of a report, with an order of campaigns of one time. -/
def selectedCampaigns (rank : ℤ → ℕ) (db : Store) (id : String) (all : Bool) : List CampaignRow :=
  if id ≠ "" ∧ ¬ all then (db.campaigns.filter fun campaign => campaign.id = id).map campaignRow
  else
    let campaigns := (db.campaigns.zipIdx.insertionSort (CreatedGe rank)).map
      fun campaign => campaignRow campaign.1
    if all then campaigns else campaigns.take 1

/-- The requests of campaigns, with an order of requests of one time. -/
def selectedRequests (rank : ℤ → ℕ) (db : Store) (ids : List String) : List RequestRow :=
  (((db.requests.rows.map db.joined).filter fun row => row.campaignId ∈ ids).insertionSort
    (CreatedLe rank)).map requestRow

def selectedEvents (db : Store) (requests : List RequestRow) : List EventRow :=
  ((db.events.rows.filter fun row => row.2.requestId ∈ requests.map RequestRow.id).insertionSort
    ReplayLe).map eventRow

variable {db : Store}

theorem reads_ranked {α : Type} (f : (ℤ → ℕ) → Store → α) :
    Reads (fun _ => True) (query fun reply db => f reply.rank db : Db Store τ String α) db
      fun a => ∃ rank, a = f rank db := by
  refine (Reads.query _).congr fun a => ⟨?_, ?_⟩
  · rintro ⟨r, -, rfl⟩
    exact ⟨r.rank, rfl⟩
  · rintro ⟨rank, rfl⟩
    exact ⟨⟨none, epoch, rank⟩, rfl, rfl⟩

theorem reads_loadCampaigns (id : String) (all : Bool) :
    Reads (fun _ => True) (loadCampaigns id all : Db Store τ String _) db
      fun campaigns => ∃ rank, campaigns = selectedCampaigns rank db id all :=
  reads_ranked fun rank db => selectedCampaigns rank db id all

theorem reads_loadRequests (ids : List String) :
    Reads (fun _ => True) (loadRequests ids : Db Store τ String _) db
      fun requests => ∃ rank, requests = selectedRequests rank db ids :=
  reads_ranked fun rank db => selectedRequests rank db ids

theorem reads_loadEvents (requests : List RequestRow) :
    Reads (fun _ => True) (loadEvents requests : Db Store τ String _) db
      (· = selectedEvents db requests) := by
  rw [loadEvents]
  by_cases hempty : requests.isEmpty = true
  · have hnone : selectedEvents db requests = [] := by
      simp [selectedEvents, List.isEmpty_iff.1 hempty]
    rw [if_pos hempty, hnone]
    exact Reads.pure []
  · rw [if_neg hempty]
    refine (Reads.query _).congr fun events => ⟨?_, ?_⟩
    · rintro ⟨r, -, rfl⟩
      rfl
    · rintro rfl
      exact ⟨.plain, rfl, rfl⟩

theorem reads_loadScope (campaignId : String) :
    Reads (fun _ => True) (loadScope campaignId : Db Store τ String _) db
      fun scope => ∃ rank rank', scope.1 = selectedCampaigns rank db campaignId (campaignId = "") ∧
        scope.2 = selectedRequests rank' db (scope.1.map CampaignRow.id) := by
  rw [loadScope]
  refine (Reads.bind (reads_loadCampaigns campaignId _) (T := fun campaigns scope =>
    scope.1 = campaigns ∧ ∃ rank', scope.2 = selectedRequests rank' db
      (campaigns.map CampaignRow.id)) fun campaigns => ?_).congr fun scope => ⟨?_, ?_⟩
  · by_cases hempty : campaigns.isEmpty = true
    · rw [if_pos hempty]
      refine (Reads.pure _).congr fun scope => ?_
      have hnone (rank : ℤ → ℕ) : selectedRequests rank db (campaigns.map CampaignRow.id) = [] := by
        simp [selectedRequests, List.isEmpty_iff.1 hempty]
      simp [hnone, Prod.ext_iff]
    · rw [if_neg hempty]
      refine (Reads.bind (reads_loadRequests _) fun requests => Reads.pure _).congr fun scope => ?_
      constructor
      · rintro ⟨requests, ⟨rank', rfl⟩, rfl⟩
        exact ⟨rfl, rank', rfl⟩
      · rintro ⟨rfl, rank', hrequests⟩
        exact ⟨_, ⟨rank', rfl⟩, Prod.ext rfl hrequests⟩
  · rintro ⟨campaigns, ⟨rank, rfl⟩, hcampaigns, rank', hrequests⟩
    exact ⟨rank, rank', hcampaigns, hcampaigns ▸ hrequests⟩
  · rintro ⟨rank, rank', hcampaigns, hrequests⟩
    exact ⟨_, ⟨rank, rfl⟩, hcampaigns, rank', hcampaigns ▸ hrequests⟩

/-- The requests of a scope are the reported rows, whatever the order. -/
theorem mem_selectedRequests (rank rank' : ℤ → ℕ) (db : Store) (campaignId : String)
    (request : RequestRow) :
    request ∈ selectedRequests rank' db ((selectedCampaigns rank db campaignId
        (campaignId = "")).map CampaignRow.id) ↔ request ∈ reportedRows db campaignId := by
  have hids (id : String) : id ∈ (selectedCampaigns rank db campaignId
      (campaignId = "")).map CampaignRow.id ↔ id ∈ scopeIds db campaignId := by
    by_cases hall : campaignId = ""
    · have hsorted := (List.perm_insertionSort (CreatedGe rank) db.campaigns.zipIdx).map
        fun campaign => (campaignRow campaign.1).id
      have hfst : db.campaigns.zipIdx.map (fun campaign => (campaignRow campaign.1).id) =
          db.campaigns.map Campaign.id := by
        conv_rhs => rw [← List.zipIdx_map_fst 0 db.campaigns, List.map_map]
        rfl
      rw [hfst] at hsorted
      simpa [selectedCampaigns, scopeIds, hall, List.map_map, Function.comp_def] using
        hsorted.mem_iff (a := id)
    · simp [selectedCampaigns, scopeIds, hall, campaignRow]
  simp only [selectedRequests, reportedRows, reported, List.mem_map, List.mem_insertionSort,
    List.mem_filter, decide_eq_true_eq, hids]
  constructor
  · rintro ⟨joined, ⟨⟨row, hrow, rfl⟩, hscope⟩, rfl⟩
    exact ⟨row, ⟨hrow, hscope⟩, rfl⟩
  · rintro ⟨row, ⟨hrow, hscope⟩, rfl⟩
    exact ⟨_, ⟨⟨row, hrow, rfl⟩, hscope⟩, rfl⟩

/-! ### Programs that do not stop -/

/-- The program stops, which is no error of a query. -/
def Stopping (e : ReportError) : Prop := ∃ message, e = .stopped message

/-- No run of the program from the store stops, whatever the replies. -/
def NeverStops {α : Type} (m : Db Store τ ReportError α) (db : Store) : Prop :=
  NeverFails Stopping m db

section Rules

variable {α β : Type}

theorem neverStops_read {m : Db Store τ String α} {S : α → Prop} (hm : Reads (fun _ => True) m db S)
    (k : α → Db Store τ ReportError β) :
    NeverStops (Db.mapError m .database >>= k) db ↔ ∀ a, S a → NeverStops (k a) db := by
  have hread : Reads (fun e => ¬ Stopping e) (Db.mapError m ReportError.database) db S := by
    refine hm.mapError ?_
    rintro e - ⟨message, hmessage⟩
    cases hmessage
  exact hread.neverFails_bind

theorem neverStops_orStop (x : Except String α) :
    NeverStops (orStop x : Db Store τ ReportError α) db ↔ x.isOk = true := by
  cases x with
  | ok a => exact iff_of_true (neverFails_pure a) rfl
  | error message =>
    refine (neverFails_fail τ db α).trans (iff_of_false ?_ (by simp))
    exact fun h => h ⟨message, rfl⟩

theorem neverStops_orStop_bind (x : Except String α) (k : α → Db Store τ ReportError β) :
    NeverStops (orStop x >>= k) db ↔ ∃ a, x = .ok a ∧ NeverStops (k a) db := by
  cases x with
  | ok a =>
    show NeverStops (k a) db ↔ _
    simp
  | error message =>
    refine iff_of_false (fun h => ?_) (by simp)
    exact h ⟨db, [], fun _ => .plain⟩ rfl (.stopped message) _ rfl ⟨message, rfl⟩

theorem neverStops_last (x : Except String α) (g : α → β) :
    NeverStops (orStop x >>= fun a => Pure.pure (g a) : Db Store τ ReportError β) db ↔
      x.isOk = true := by
  rw [neverStops_orStop_bind, Result.isOk_iff]
  simp only [NeverStops, neverFails_pure, and_true]

end Rules

/-! ### The four reports -/

/-- The calendar, in a build that checks the product of the weeks or in one where it wraps. -/
def getCalendarIn (build : Build) (campaignId : String) (weeks : ℤ) (now : DateTime) :
    Db Store τ ReportError Json :=
  if build = .checked ∧ ¬ Fits (weeks * 7) then
    fail (.stopped "attempt to multiply with overflow")
  else getCalendar campaignId weeks now

variable {campaignId : String} {opts : ReportOpts} {weeks : ℤ} {now : DateTime}

/-- What follows the rows of a scope looks at the reported rows only. -/
theorem neverStops_scope {α : Type}
    (k : List CampaignRow × List RequestRow → Db Store τ ReportError α) {P : RequestRow → Prop}
    (hk : ∀ scope, NeverStops (k scope) db ↔ ∀ request ∈ scope.2, P request) :
    NeverStops (Db.mapError (loadScope campaignId) .database >>= k) db ↔
      ∀ request ∈ reportedRows db campaignId, P request := by
  rw [neverStops_read (reads_loadScope campaignId)]
  constructor
  · intro h
    -- one order of equal times is enough
    let campaigns := selectedCampaigns (fun _ => 0) db campaignId (campaignId = "")
    let requests := selectedRequests (fun _ => 0) db (campaigns.map CampaignRow.id)
    have hscope := (hk (campaigns, requests)).1 (h _ ⟨fun _ => 0, fun _ => 0, rfl, rfl⟩)
    exact fun request hrequest =>
      hscope request ((mem_selectedRequests _ _ db campaignId request).2 hrequest)
  · rintro hP ⟨campaigns, requests⟩ ⟨rank, rank', hcampaigns, hrequests⟩
    refine (hk _).2 fun request hrequest => hP request ?_
    simp only at hcampaigns hrequests
    rwa [hrequests, hcampaigns, mem_selectedRequests] at hrequest

theorem neverStops_getCampaignStatus (hnow : now.year ≤ 9999) :
    NeverStops (getCampaignStatus campaignId now : Db Store τ _ _) db ↔
      ∀ request ∈ reportedRows db campaignId, request.resolvedAt = "" →
        Cuttable request.deadlineAt ∧ Cuttable request.nextActionAt := by
  refine neverStops_scope (fun scope =>
    orStop (scope.2.foldlM (countRequest now) .start) >>= fun counts =>
      Pure.pure (statusValue campaignId now scope.2 counts)) fun scope => ?_
  rw [neverStops_last]
  exact Result.isOk_foldlM (isOk_countRequest hnow)

theorem neverStops_getCalendarIn :
    (∀ build, NeverStops (getCalendarIn build campaignId weeks now : Db Store τ _ _) db) ↔
      (now.checkedAddSigned (durationDays (weeks * 7))).isSome = true ∧
        ∀ request ∈ reportedRows db campaignId, request.resolvedAt = "" →
          Cuttable (markerOf request).1 := by
  have hlist (horizon : DateTime) :
      NeverStops (Db.mapError (loadScope campaignId) .database >>= fun scope =>
        (orStop (scope.2.foldlM (listRequest now horizon) .start) >>= fun buckets =>
          Pure.pure (calendarValue campaignId weeks now horizon buckets) :
            Db Store τ ReportError Json)) db ↔
        ∀ request ∈ reportedRows db campaignId, request.resolvedAt = "" →
          Cuttable (markerOf request).1 :=
    neverStops_scope _ fun scope => by
      rw [neverStops_last]
      exact Result.isOk_foldlM isOk_listRequest
  have hcalendar (hfits : Fits (weeks * 7)) :
      NeverStops (getCalendar campaignId weeks now : Db Store τ _ _) db ↔
        (now.checkedAddSigned (durationDays (weeks * 7))).isSome = true ∧
          ∀ request ∈ reportedRows db campaignId, request.resolvedAt = "" →
            Cuttable (markerOf request).1 := by
    have hwrap : wrapI64 (weeks * 7) = weeks * 7 :=
      wrapI64_of_mem hfits.1 (Int.lt_of_le_of_lt hfits.2 (by decide))
    rw [getCalendar, neverStops_orStop_bind, horizonUntil, hwrap, ← isOk_daysLater, Result.isOk_iff]
    constructor
    · rintro ⟨horizon, hhorizon, hstops⟩
      exact ⟨⟨horizon, hhorizon⟩, (hlist horizon).1 hstops⟩
    · rintro ⟨⟨horizon, hhorizon⟩, hmarkers⟩
      exact ⟨horizon, hhorizon, (hlist horizon).2 hmarkers⟩
  constructor
  · intro h
    have hfits : Fits (weeks * 7) := by
      by_contra hfits
      have hchecked := h .checked
      rw [getCalendarIn, if_pos ⟨rfl, hfits⟩] at hchecked
      exact (neverFails_fail τ db Json).1 hchecked ⟨_, rfl⟩
    have hwrapping := h .wrapping
    rw [getCalendarIn, if_neg fun h => nomatch h.1] at hwrapping
    exact (hcalendar hfits).1 hwrapping
  · intro h build
    have hfits := fits_of_isSome h.1
    rw [getCalendarIn, if_neg fun h => h.2 hfits]
    exact (hcalendar hfits).2 h

theorem neverStops_getDashboardData :
    NeverStops (getDashboardData campaignId now : Db Store τ _ _) db ↔
      ∀ request ∈ reportedRows db campaignId,
        Cuttable request.sentAt ∧ Cuttable request.resolvedAt := by
  refine neverStops_scope (fun scope =>
    Db.mapError (recentEvents 50) .database >>= fun events =>
      orStop (brokerDashboard scope.2) >>= fun brokers =>
        Pure.pure (dashboardValue now scope.1 scope.2 events brokers)) fun scope => ?_
  rw [recentEvents, neverStops_read (Reads.query _)]
  simp only [neverStops_last, brokerDashboard, Result.isOk_map, isOk_brokerLeaderboard]
  exact ⟨fun h => h _ ⟨.plain, rfl, rfl⟩, fun h _ _ => h⟩

/-- The rows of a report can be reported on. -/
structure Reportable (db : Store) (campaigns : List CampaignRow) (requests : List RequestRow) :
    Prop where
  spans : ∀ request ∈ requests, Cuttable request.sentAt ∧ Cuttable request.resolvedAt
  days : ∀ event ∈ selectedEvents db requests, DayCuttable event.occurredAt
  reminders : ∀ campaign ∈ campaigns,
    SumsFit ((requestsOf requests campaign).map RequestRow.remindersSent)

theorem selectedRequests_nil (rank : ℤ → ℕ) (db : Store) : selectedRequests rank db [] = [] := by
  simp [selectedRequests]

theorem selectedEvents_nil (db : Store) : selectedEvents db [] = [] := by
  simp [selectedEvents]

/-- The report is made of the selected rows. -/
theorem neverStops_getReportData_of (build : Build) :
    NeverStops (getReportData build opts now : Db Store τ _ _) db ↔ ∀ rank rank',
      let campaigns := selectedCampaigns rank db opts.campaignId opts.allCampaigns
      let requests := selectedRequests rank' db (campaigns.map CampaignRow.id)
      (reportValue build now campaigns requests (selectedEvents db requests)).isOk = true := by
  rw [getReportData, neverStops_read (reads_loadCampaigns _ _)]
  simp only [forall_exists_index, forall_eq_apply_imp_iff]
  refine forall_congr' fun rank => ?_
  generalize selectedCampaigns rank db opts.campaignId opts.allCampaigns = campaigns
  by_cases hempty : campaigns.isEmpty = true
  · rw [if_pos hempty, List.isEmpty_iff.1 hempty]
    refine iff_of_true (neverFails_pure _) fun rank' => ?_
    rw [List.map_nil, selectedRequests_nil, selectedEvents_nil]
    rfl
  · rw [if_neg hempty, neverStops_read (reads_loadRequests _)]
    simp only [forall_exists_index, forall_eq_apply_imp_iff]
    refine forall_congr' fun rank' => ?_
    rw [neverStops_read (reads_loadEvents _)]
    simp only [forall_eq, neverStops_orStop]

theorem neverStops_getReportData :
    (∀ build, NeverStops (getReportData build opts now : Db Store τ _ _) db) ↔
      ∀ rank rank',
        let campaigns := selectedCampaigns rank db opts.campaignId opts.allCampaigns
        Reportable db campaigns (selectedRequests rank' db (campaigns.map CampaignRow.id)) := by
  simp only [neverStops_getReportData_of]
  constructor
  · intro h rank rank'
    obtain ⟨hspans, hdays, hreminders⟩ := isOk_reportValue_iff.1 fun build => h build rank rank'
    exact ⟨hspans, hdays, hreminders⟩
  · intro h build rank rank'
    obtain ⟨hspans, hdays, hreminders⟩ := h rank rank'
    exact isOk_reportValue_iff.2 ⟨hspans, hdays, hreminders⟩ build

/-- No report stops the program, in a build that checks its arithmetic or in one where it wraps. -/
structure Safe (τ : Type) (db : Store) (campaignId : String) (opts : ReportOpts) (weeks : ℤ)
    (now : DateTime) : Prop where
  calendar : ∀ build, NeverStops (getCalendarIn build campaignId weeks now : Db Store τ _ _) db
  status : NeverStops (getCampaignStatus campaignId now : Db Store τ _ _) db
  dashboard : NeverStops (getDashboardData campaignId now : Db Store τ _ _) db
  report : ∀ build, NeverStops (getReportData build opts now : Db Store τ _ _) db

/-- The weeks end in the calendar, and the texts and counts can be taken. -/
structure Tolerable (db : Store) (campaignId : String) (opts : ReportOpts) (weeks : ℤ)
    (now : DateTime) : Prop where
  horizon : (now.checkedAddSigned (durationDays (weeks * 7))).isSome = true
  markers : ∀ request ∈ reportedRows db campaignId, request.resolvedAt = "" →
    Cuttable request.deadlineAt ∧ Cuttable request.nextActionAt
  spans : ∀ request ∈ reportedRows db campaignId,
    Cuttable request.sentAt ∧ Cuttable request.resolvedAt
  report : ∀ rank rank',
    let campaigns := selectedCampaigns rank db opts.campaignId opts.allCampaigns
    Reportable db campaigns (selectedRequests rank' db (campaigns.map CampaignRow.id))

/-- Before the year 10000, no report stops the program exactly if its texts can be cut, the end of
the weeks is an instant, and the reminders of a campaign can be summed. -/
theorem safe_iff (hnow : now.year ≤ 9999) :
    Safe τ db campaignId opts weeks now ↔ Tolerable db campaignId opts weeks now := by
  constructor
  · intro h
    exact ⟨(neverStops_getCalendarIn.1 h.calendar).1,
      (neverStops_getCampaignStatus hnow).1 h.status, neverStops_getDashboardData.1 h.dashboard,
      neverStops_getReportData.1 h.report⟩
  · intro h
    refine ⟨neverStops_getCalendarIn.2 ⟨h.horizon, fun request hrequest hopen => ?_⟩,
      (neverStops_getCampaignStatus hnow).2 h.markers, neverStops_getDashboardData.2 h.spans,
      neverStops_getReportData.2 h.report⟩
    obtain ⟨hdeadline, hnext⟩ := h.markers request hrequest hopen
    rw [markerOf]
    split_ifs
    · exact hdeadline
    · exact hnext

theorem safe_waiting :
    Safe Unit (waitingStore "2026-02-01T00:00:00Z") "" ⟨"", true⟩ 4 epoch := by
  refine (safe_iff (by decide)).2 ⟨by decide, ?_, ?_, fun rank rank' => ⟨?_, ?_, ?_⟩⟩
  · intro request hrequest _
    obtain rfl := List.mem_singleton.1 hrequest
    exact ⟨Or.inl (by decide), Or.inr (Or.inl (by decide))⟩
  · intro request hrequest
    obtain rfl := List.mem_singleton.1 hrequest
    exact ⟨Or.inl (by decide), Or.inr (Or.inl (by decide))⟩
  · intro request hrequest
    obtain rfl := List.mem_singleton.1 hrequest
    exact ⟨Or.inl (by decide), Or.inr (Or.inl (by decide))⟩
  · intro event hevent
    cases hevent
  · intro campaign hcampaign n
    obtain rfl := List.mem_singleton.1 hcampaign
    show Fits ((([1] : List ℤ).take n).sum)
    cases n with
    | zero => exact ⟨by decide, by decide⟩
    | succ n =>
      rw [List.take_of_length_le (by simp)]
      exact ⟨by decide, by decide⟩

/-- A deadline that is cut inside a character stops the calendar, and so does a number of weeks. -/
theorem not_safe :
    ¬ Safe Unit (waitingStore "ééééééééééééé") "" ⟨"", true⟩ 4 epoch ∧
      ¬ Safe Unit springStore "" ⟨"", true⟩ 9223372036854775807 epoch := by
  refine ⟨fun h => ?_, fun h => ?_⟩
  · exact h.calendar .wrapping ((waitingStore "ééééééééééééé").connect) rfl _ _ rfl ⟨_, rfl⟩
  · exact h.calendar .wrapping springStore.connect rfl _ _ rfl ⟨_, rfl⟩

end EraseMe.Reporting
