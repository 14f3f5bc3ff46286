import EraseMe.Escalation

/-!
# Resolved requests

Two event types record a resolution, `confirmed` and `rejectedFinal`: they set the status and
`resolvedAt`.  A clicked confirmation link sets the status CONFIRMED as well, but no column; so a
request may be CONFIRMED with an empty `resolvedAt`, and its rescan is then never due
(`resolutionRecorded_iff`).  No event clears the column (`foldEvents_resolvedAt`).
-/

namespace EraseMe.Storage

open Chrono

variable (arch : TargetArch)

/-- A status of a request that is done. -/
def Resolved (status : String) : Prop := status = "CONFIRMED" ∨ status = "REJECTED_FINAL"

instance (status : String) : Decidable (Resolved status) :=
  inferInstanceAs (Decidable (status = "CONFIRMED" ∨ status = "REJECTED_FINAL"))

/-- A replayable event that records a resolution. -/
def EventRecord.Resolves (event : EventRecord) : Prop :=
  ¬ event.Skipped ∧ (event.eventType = .confirmed ∨ event.eventType = .rejectedFinal)

instance (event : EventRecord) : Decidable event.Resolves :=
  inferInstanceAs (Decidable (¬ event.Skipped ∧
    (event.eventType = .confirmed ∨ event.eventType = .rejectedFinal)))

/-- The last event that records a resolution. -/
def lastResolution (events : List EventRecord) : Option EventRecord :=
  events.reverse.find? fun event => event.Resolves

theorem lastResolution_append (events : List EventRecord) (event : EventRecord) :
    lastResolution (events ++ [event]) =
      if event.Resolves then some event else lastResolution events := by
  rw [lastResolution, List.reverse_append, List.reverse_singleton, List.singleton_append,
    List.find?_cons]
  by_cases h : event.Resolves
  · simp [h]
  · simp [h, lastResolution]

theorem lastResolution_eq_some {events : List EventRecord} {event : EventRecord}
    (h : lastResolution events = some event) : event ∈ events ∧ event.Resolves :=
  ⟨List.mem_reverse.1 (List.mem_of_find?_eq_some h), by simpa using List.find?_some h⟩

theorem lastResolution_isSome {events : List EventRecord} :
    (lastResolution events).isSome ↔ ∃ event ∈ events, event.Resolves := by
  simp [lastResolution, List.find?_isSome]

theorem effect_resolvedAt (event : EventRecord) (state : ProjectionState) :
    (effect arch event state).resolvedAt =
      if event.eventType = .confirmed ∨ event.eventType = .rejectedFinal then
        some (Timeutil.formatIso event.occurredAt)
      else state.resolvedAt := by
  cases h : event.eventType with
  | sent => rw [effect_eq_sent arch event state h]; simp
  | _ => simp [effect, h]

/-- The time of the resolution is that of the last event that records one. -/
theorem foldEvents_resolvedAt (requestId : ℤ) (events : List EventRecord) :
    (foldEvents arch requestId events).resolvedAt =
      (lastResolution events).map fun event => Timeutil.formatIso event.occurredAt := by
  induction events using List.reverseRecOn with
  | nil => rfl
  | append_singleton events event ih =>
    rw [foldEvents_append, lastResolution_append]
    by_cases hskip : event.Skipped
    · rw [replayEvent_of_skipped arch hskip, if_neg fun h => h.1 hskip, ih]
    · rw [replayEvent_of_not_skipped arch hskip, effect_resolvedAt, ProjectionState.note, ih]
      by_cases htype : event.eventType = .confirmed ∨ event.eventType = .rejectedFinal
      · rw [if_pos htype, if_pos (show event.Resolves from ⟨hskip, htype⟩)]
        rfl
      · rw [if_neg htype, if_neg fun h => htype h.2]

/-- The status of an event type is one of a request that is done. -/
theorem exists_resolved_statusFor {t : EventType} :
    (∃ status, statusFor t = some status ∧ Resolved status) ↔
      t = .confirmed ∨ t = .rejectedFinal ∨ t = .confirmationLinkClicked := by
  cases t with
  | unknown value => simp [statusFor]
  | _ => simp [statusFor, Resolved]

/-- A request is done after three event types. -/
theorem resolved_iff (requestId : ℤ) (events : List EventRecord) :
    Resolved (foldEvents arch requestId events).currentStatus ↔
      lastTransition events = some .confirmed ∨ lastTransition events = some .rejectedFinal ∨
        lastTransition events = some .confirmationLinkClicked := by
  rw [foldEvents_currentStatus]
  have hplanned : ¬ Resolved "PLANNED" := by decide
  cases lastTransition events with
  | none => simpa using hplanned
  | some t =>
    simp only [Option.bind_some, Option.some.injEq]
    rw [← exists_resolved_statusFor]
    cases statusFor t with
    | none => simpa using hplanned
    | some status => simp

/-- The last event that sets the status is an event of the history. -/
theorem lastTransition_eq_some {events : List EventRecord} {t : EventType}
    (h : lastTransition events = some t) :
    ∃ event ∈ events, ¬ event.Skipped ∧ event.eventType = t := by
  obtain ⟨event, hfind, rfl⟩ := Option.map_eq_some_iff.1 h
  have hnot : ¬ event.Skipped ∧ (statusFor event.eventType).isSome := by
    simpa using List.find?_some hfind
  exact ⟨event, List.mem_reverse.1 (List.mem_of_find?_eq_some hfind), hnot.1, rfl⟩

end EraseMe.Storage

namespace EraseMe.Deadlines

open Chrono Storage

variable (arch : TargetArch)

/-! ### The rescan of a confirmed request -/

/-- A stored instant is a whole second, so that a duration since it is no shorter. -/
theorem signedDurationSince_le_trunc (a b : DateTime) :
    a.signedDurationSince b ≤ a.signedDurationSince b.trunc := by
  have hleap : nanosPerSecond ≤ b.trunc.nanos ↔ nanosPerSecond ≤ b.nanos := by
    simp only [DateTime.trunc, nanosPerSecond]
    omega
  have hnanos : (b.trunc.nanos : ℤ) ≤ b.nanos := Int.ofNat_le.2 (Nat.div_mul_le_self _ _)
  simp only [DateTime.signedDurationSince, DateTime.trunc_secs, hleap]
  exact add_le_add_right (sub_le_sub_left hnanos _) _

theorem le_daysBetween {now then_ : DateTime} {days : ℤ} (hdays : 0 ≤ days)
    (h : durationDays days ≤ now.signedDurationSince then_) : days ≤ daysBetween now then_ := by
  have hnanos : (0 : ℤ) ≤ nanosPerSecond := Int.natCast_nonneg _
  have hnonneg : 0 ≤ now.signedDurationSince then_ :=
    le_trans (mul_nonneg (mul_nonneg hdays (by decide)) hnanos) h
  have hseconds : 0 ≤ now.signedDurationSince then_ / nanosPerSecond :=
    Int.ediv_nonneg hnonneg hnanos
  rw [daysBetween, numHours, numSeconds, Int.tdiv_eq_ediv_of_nonneg hnonneg,
    Int.tdiv_eq_ediv_of_nonneg hseconds,
    Int.tdiv_eq_ediv_of_nonneg (Int.ediv_nonneg hseconds (by decide))]
  simp only [durationDays, nanosPerSecond] at h ⊢
  omega

/-- From 90 days after an instant on, a confirmed request with that instant is scanned again. -/
def RescanFires (request : TickCandidate) (resolvedAt : DateTime) : Prop :=
  ∀ now dryRun, durationDays rescanDays ≤ now.signedDurationSince resolvedAt →
    ∃ action, actionsForCandidate request now dryRun = .ok [action] ∧
      action.actionType = "trigger_rescan"

theorem rescanFires_of_resolvedAt {request : TickCandidate} {resolvedAt : DateTime}
    (hstatus : request.currentStatus = "CONFIRMED")
    (hresolved : request.resolvedAt = Timeutil.formatIso resolvedAt) :
    RescanFires request resolvedAt := by
  intro now dryRun hdays
  have hparsed : parsed request.resolvedAt = some resolvedAt.trunc := by
    rw [hresolved, parsed_formatIso]
  have hdue : rescanDays ≤ daysBetween now resolvedAt.trunc :=
    le_daysBetween (by decide) (le_trans hdays (signedDurationSince_le_trunc now resolvedAt))
  have hrescan : ∃ action, rescan request now dryRun = some action ∧
      action.actionType = "trigger_rescan" :=
    ⟨_, rescan_eq_some.2 ⟨_, hparsed, hdue, rfl⟩, rfl⟩
  obtain ⟨action, haction, htype⟩ := hrescan
  refine ⟨action, ?_, htype⟩
  rw [actionsForCandidate_confirmed now dryRun hstatus, haction]
  rfl

/-- If the request is done, its column is the instant of an event that resolved it, and the rescan
of a confirmed request is due 90 days after that event. -/
def ResolutionRecorded (id : ℤ) (columns : RequestColumns) (events : List EventRecord)
    (written : DateTime) : Prop :=
  Resolved (foldEvents arch id events).currentStatus →
    ∃ event ∈ events, ¬ event.Skipped ∧
      (∃ status, statusFor event.eventType = some status ∧ Resolved status) ∧
      (foldEvents arch id events).resolvedAt = some (Timeutil.formatIso event.occurredAt) ∧
      ((foldEvents arch id events).currentStatus = "CONFIRMED" →
        RescanFires (projectedCandidate arch id columns events written) event.occurredAt)

/-- The resolution of a request is recorded unless its status comes from a clicked confirmation
link and no event of its history is `confirmed` or `rejectedFinal`. -/
theorem resolutionRecorded_iff (id : ℤ) (columns : RequestColumns) (events : List EventRecord)
    (written : DateTime) :
    ResolutionRecorded arch id columns events written ↔
      (lastTransition events = some .confirmationLinkClicked →
        ∃ event ∈ events, event.Resolves) := by
  constructor
  · intro h hclicked
    obtain ⟨event, -, -, -, hat, -⟩ :=
      h ((resolved_iff arch id events).2 (Or.inr (Or.inr hclicked)))
    rw [foldEvents_resolvedAt] at hat
    obtain ⟨resolution, hlast, -⟩ := Option.map_eq_some_iff.1 hat
    exact ⟨resolution, lastResolution_eq_some hlast⟩
  · intro h hresolved
    have hexists : ∃ event ∈ events, event.Resolves := by
      rcases (resolved_iff arch id events).1 hresolved with hlast | hlast | hlast
      · obtain ⟨event, hmem, hskip, htype⟩ := lastTransition_eq_some hlast
        exact ⟨event, hmem, hskip, Or.inl htype⟩
      · obtain ⟨event, hmem, hskip, htype⟩ := lastTransition_eq_some hlast
        exact ⟨event, hmem, hskip, Or.inr htype⟩
      · exact h hlast
    obtain ⟨event, hlast⟩ := Option.isSome_iff_exists.1 (lastResolution_isSome.2 hexists)
    obtain ⟨hmem, hskip, htype⟩ := lastResolution_eq_some hlast
    have hat : (foldEvents arch id events).resolvedAt =
        some (Timeutil.formatIso event.occurredAt) := by
      rw [foldEvents_resolvedAt, hlast]
      rfl
    refine ⟨event, hmem, hskip, ?_, hat, fun hstatus => ?_⟩
    · exact exists_resolved_statusFor.2 (htype.imp_right Or.inl)
    · refine rescanFires_of_resolvedAt hstatus ?_
      show (foldEvents arch id events).resolvedAt.getD "" = Timeutil.formatIso event.occurredAt
      rw [hat]
      rfl

/-- Sent on 2026-01-01, and the confirmation link clicked the day after. -/
def linkClicked : List EventRecord :=
  [appendedEvent 1 1 .sent [("expected_response_days", .int 30)] .system
      (.ofSecs 1767225600 jan1_inRange) epoch,
    appendedEvent 2 1 .confirmationLinkClicked [] .user (.ofSecs 1767312000 jan2_inRange) epoch]

/-- The request is CONFIRMED, and no event is recorded as its resolution. -/
theorem not_resolutionRecorded_linkClicked :
    (foldEvents .x86_64 1 linkClicked).currentStatus = "CONFIRMED" ∧
    ¬ ResolutionRecorded .x86_64 1 ⟨"acme", "email", "spring", "", "GDPR", "", ""⟩ linkClicked
      epoch := by
  have hstatus : (foldEvents .x86_64 1 linkClicked).currentStatus = "CONFIRMED" := by decide
  refine ⟨hstatus, fun h => ?_⟩
  obtain ⟨event, -, -, -, hat, -⟩ := h (Or.inl hstatus)
  have hnone : (foldEvents .x86_64 1 linkClicked).resolvedAt = none := by decide
  rw [hnone] at hat
  cases hat

end EraseMe.Deadlines
