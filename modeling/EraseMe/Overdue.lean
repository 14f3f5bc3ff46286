import EraseMe.Resolution
import EraseMe.Tick

/-!
# Deadlines of waiting requests

The deadline of a request is set when it is sent.  It is looked at in the status AWAITING_RESPONSE
only: a request that waits for an acknowledgement gets reminders, an acknowledged one gets nothing,
however long the deadline is past.  `overdueMarked_iff` says for which histories a passed deadline
leads to OVERDUE, and from there to a complaint.
-/

namespace EraseMe.Deadlines

open Chrono Json Storage

variable (arch : TargetArch)

/-! ### Waiting -/

/-- The request waits for the broker. -/
def Waiting (status : String) : Prop :=
  status = "AWAITING_ACK" ∨ status = "ACK" ∨ status = "AWAITING_RESPONSE"

/-- The event types after which the deadline is not looked at, though the request waits. -/
def LeavesUnwatched (t : EventType) : Prop :=
  t = .sent ∨ t = .autoresponder ∨ t = .reminderSent ∨ t = .ack

theorem statusFor_unwatched {t : EventType} :
    LeavesUnwatched t ↔ statusFor t = some "AWAITING_ACK" ∨ statusFor t = some "ACK" := by
  cases t <;> simp [LeavesUnwatched, statusFor]

theorem unwatched_iff (id : ℤ) (events : List EventRecord) :
    (∃ t, lastTransition events = some t ∧ LeavesUnwatched t) ↔
      (foldEvents arch id events).currentStatus = "AWAITING_ACK" ∨
        (foldEvents arch id events).currentStatus = "ACK" := by
  rw [foldEvents_currentStatus]
  cases lastTransition events with
  | none => simp
  | some t =>
    simp only [Option.some.injEq, exists_eq_left', Option.bind_some, statusFor_unwatched]
    cases statusFor t with
    | none => simp
    | some status => simp

/-- A request with a deadline was sent. -/
theorem exists_sent_of_lastDeadline {events : List EventRecord} {deadline : DateTime}
    (h : lastDeadline arch events = some deadline) :
    ∃ event ∈ events, ¬ event.Skipped ∧ event.eventType = .sent := by
  obtain ⟨event, hmem, hevent⟩ := List.exists_of_findSome?_eq_some h
  split_ifs at hevent with hsent
  · exact ⟨event, List.mem_reverse.1 hmem, hsent⟩

theorem parsed_deadlineAt (id : ℤ) (columns : RequestColumns) (events : List EventRecord)
    (written : DateTime) :
    parsed (projectedCandidate arch id columns events written).deadlineAt =
      (lastDeadline arch events).map DateTime.trunc := by
  change parsed ((foldEvents arch id events).deadlineAt.getD "") = _
  rw [foldEvents_deadlineAt]
  cases lastDeadline arch events with
  | none => rfl
  | some deadline => exact parsed_formatIso deadline

/-! ### A passed deadline -/

/-- After the event of the tick the request is overdue, and from 14 days after the deadline on a
complaint is drafted. -/
def LeadsToComplaint (id : ℤ) (columns : RequestColumns) (events : List EventRecord)
    (deadline : DateTime) : Prop :=
  (foldEvents arch id events).currentStatus = "OVERDUE" ∧
    ∀ written later dryRun, dpaEscalationDays ≤ daysBetween later deadline →
      Drafts (projectedCandidate arch id columns events written) later dryRun

/-- If the request was sent and waits, then from its deadline on it is marked overdue; the event of
the action, replayed as the last one, makes it so. -/
def OverdueMarked (id : ℤ) (columns : RequestColumns) (events : List EventRecord)
    (written : DateTime) : Prop :=
  (∃ event ∈ events, event.eventType = .sent) → Waiting (foldEvents arch id events).currentStatus →
    ∀ deadline now dryRun,
      parsed (projectedCandidate arch id columns events written).deadlineAt = some deadline →
      deadline ≤ now →
        ∃ action, actionsForCandidate (projectedCandidate arch id columns events written) now
            dryRun = .ok [action] ∧
          action.actionType = "mark_overdue" ∧
          (isGoZeroTime now.trunc = false → ∀ eventId recordedAt,
            LeadsToComplaint arch id columns
              (events ++ [tickEvent id eventId (.fromWire action.eventType) action.payload now
                recordedAt]) deadline)

/-- A request in AWAITING_RESPONSE is marked from its deadline on. -/
theorem exists_markOverdue {request : TickCandidate} {deadline now : DateTime} (dryRun : Bool)
    (hstatus : request.currentStatus = "AWAITING_RESPONSE")
    (hdeadline : parsed request.deadlineAt = some deadline) (hnow : deadline ≤ now) :
    ∃ action, actionsForCandidate request now dryRun = .ok [action] ∧
      action.actionType = "mark_overdue" ∧ action.eventType = "DEADLINE_REACHED" := by
  have heffective : effectiveDeadline request = .ok (some deadline) := by
    rw [effectiveDeadline, hdeadline]
  have hmark : ∃ action, Deadlines.deadline request now dryRun = .ok (some action) ∧
      action.actionType = "mark_overdue" ∧ action.eventType = "DEADLINE_REACHED" :=
    ⟨_, deadline_eq_some.2 ⟨deadline, heffective, hnow, rfl⟩, rfl, rfl⟩
  obtain ⟨action, haction, htypes⟩ := hmark
  refine ⟨action, ?_, htypes⟩
  rw [actionsForCandidate_awaitingResponse now dryRun hstatus, haction]
  rfl

/-- A request that waits for an acknowledgement, or has it, is not marked. -/
theorem not_markOverdue {request : TickCandidate} {now : DateTime} {dryRun : Bool}
    {action : TickAction}
    (hstatus : request.currentStatus = "AWAITING_ACK" ∨ request.currentStatus = "ACK")
    (h : Acts request now dryRun action) : action.actionType ≠ "mark_overdue" := by
  rcases acts_iff.1 h with ⟨-, h⟩ | ⟨hresponse, -⟩ | ⟨-, h⟩ | ⟨-, h⟩
  · obtain ⟨sent, -, -, -, rfl⟩ := reminder_eq_some.1 h
    simp [actionOn]
  · rw [hresponse] at hstatus
    exact absurd hstatus (by decide)
  · obtain ⟨deadline, -, -, -, rfl⟩ := dpa_eq_some.1 h
    simp [actionOn]
  · obtain ⟨resolved, -, -, rfl⟩ := rescan_eq_some.1 h
    simp [actionOn]

/-- A request marked overdue leads to a complaint. -/
theorem leadsToComplaint_marked (id : ℤ) (columns : RequestColumns) (events : List EventRecord)
    (eventId : ℤ) (payload : Map) {now deadline : DateTime} (recordedAt : DateTime)
    (hzero : isGoZeroTime now.trunc = false)
    (hdeadline : parsed (projectedCandidate arch id columns events epoch).deadlineAt =
      some deadline) :
    LeadsToComplaint arch id columns
      (events ++ [tickEvent id eventId .deadlineReached payload now recordedAt]) deadline := by
  have hafter := candidate_overdue arch id columns events eventId payload recordedAt hzero
  refine ⟨congrArg TickCandidate.currentStatus hafter, fun written later dryRun hdays => ?_⟩
  have hsame (events : List EventRecord) : projectedCandidate arch id columns events written =
      projectedCandidate arch id columns events epoch := rfl
  rw [hsame, hafter]
  exact (drafts_iff _ later dryRun).2
    ⟨rfl, show (1 : ℤ) < 2 by decide, deadline, hdeadline, hdays⟩

/-- A request that is not watched is not marked at its deadline. -/
theorem not_overdueMarked (id : ℤ) (columns : RequestColumns) {events : List EventRecord}
    (written : DateTime) {deadline : DateTime} (hlast : lastDeadline arch events = some deadline)
    (hstatus : (foldEvents arch id events).currentStatus = "AWAITING_ACK" ∨
      (foldEvents arch id events).currentStatus = "ACK") :
    ¬ OverdueMarked arch id columns events written := by
  intro h
  obtain ⟨event, hmem, -, hsent⟩ := exists_sent_of_lastDeadline arch hlast
  have hwaiting : Waiting (foldEvents arch id events).currentStatus := hstatus.imp_right Or.inl
  have hdeadline := parsed_deadlineAt arch id columns events written
  rw [hlast] at hdeadline
  obtain ⟨action, hactions, htype, -⟩ :=
    h ⟨event, hmem, hsent⟩ hwaiting deadline.trunc deadline.trunc false hdeadline le_rfl
  exact not_markOverdue hstatus ⟨_, hactions, List.mem_singleton_self _⟩ htype

/-- A passed deadline marks a waiting request, unless it has no deadline or its last status comes
from being sent, an automatic reply, a reminder or an acknowledgement. -/
theorem overdueMarked_iff (id : ℤ) (columns : RequestColumns) (events : List EventRecord)
    (written : DateTime) :
    OverdueMarked arch id columns events written ↔
      lastDeadline arch events = none ∨
        ¬ ∃ t, lastTransition events = some t ∧ LeavesUnwatched t := by
  rw [unwatched_iff arch id events]
  constructor
  · intro h
    cases hlast : lastDeadline arch events with
    | none => exact Or.inl rfl
    | some deadline =>
      exact Or.inr fun hstatus => not_overdueMarked arch id columns written hlast hstatus h
  · rintro h - hwaiting deadline now dryRun hdeadline hnow
    have hsome : lastDeadline arch events ≠ none := by
      intro hnone
      rw [parsed_deadlineAt, hnone] at hdeadline
      cases hdeadline
    have hresponse : (projectedCandidate arch id columns events written).currentStatus =
        "AWAITING_RESPONSE" := by
      rcases hwaiting with hack | hack | hresponse
      · exact absurd (Or.inl hack) (h.resolve_left hsome)
      · exact absurd (Or.inr hack) (h.resolve_left hsome)
      · exact hresponse
    obtain ⟨action, hactions, htype, hevent⟩ :=
      exists_markOverdue dryRun hresponse hdeadline hnow
    refine ⟨action, hactions, htype, fun hzero eventId recordedAt => ?_⟩
    rw [hevent]
    exact leadsToComplaint_marked arch id columns events eventId action.payload recordedAt hzero
      hdeadline

/-! ### A request nobody answers -/

/-- Sent on 2026-01-01 with 30 days to answer, and acknowledged the day after. -/
def acknowledged : List EventRecord :=
  [appendedEvent 1 1 .sent [("expected_response_days", .int 30)] .system
      (.ofSecs 1767225600 jan1_inRange) epoch,
    appendedEvent 2 1 .ack [] .user (.ofSecs 1767312000 jan2_inRange) epoch]

/-- The deadline is looked at neither before the acknowledgement nor after it. -/
theorem not_overdueMarked_acknowledged :
    ¬ OverdueMarked .x86_64 1 ⟨"acme", "email", "spring", "", "GDPR", "", ""⟩
        (acknowledged.take 1) epoch ∧
      ¬ OverdueMarked .x86_64 1 ⟨"acme", "email", "spring", "", "GDPR", "", ""⟩ acknowledged
        epoch := by
  have hdeadline : lastDeadline .x86_64 (acknowledged.take 1) =
      some (.ofSecs 1769817600 (by decide)) := by decide
  have hdeadline' : lastDeadline .x86_64 acknowledged =
      some (.ofSecs 1769817600 (by decide)) := by decide
  exact ⟨not_overdueMarked .x86_64 1 _ epoch hdeadline (by decide),
    not_overdueMarked .x86_64 1 _ epoch hdeadline' (by decide)⟩

end EraseMe.Deadlines
