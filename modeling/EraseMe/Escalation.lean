import EraseMe.Deadlines
import EraseMe.Storage.Replay

/-!
# Complaints and escalation levels

A complaint is drafted for an overdue request below escalation level 2, and drafting it sets the
level to 2.  But the status is OVERDUE only after a DEADLINE_REACHED event, and that event sets
the level back to 1: the guard on the level never holds a complaint back
(`escalationLevel_of_overdue`), and `noDraft_iff` says when one is drafted again.
-/

namespace EraseMe.Deadlines

open Chrono Json Sqlite Storage

variable (arch : TargetArch)

/-! ### What the rules decide -/

theorem formatIso_ne_empty (t : DateTime) : Timeutil.formatIso t ≠ "" := by
  intro h
  have hparse := Timeutil.parse_formatIso t
  rw [h] at hparse
  cases hparse

theorem parsed_formatIso (t : DateTime) : parsed (Timeutil.formatIso t) = some t.trunc := by
  rw [parsed, if_neg (formatIso_ne_empty t), Timeutil.parseTimestamp, Timeutil.parse_formatIso]
  rfl

@[simp] theorem parsed_empty : parsed "" = none := rfl

section Rules

variable {request : TickCandidate} {now : DateTime} {dryRun : Bool} {action : TickAction}

theorem reminder_eq_some : reminder request now dryRun = some action ↔
    ∃ sent, parsed request.sentAt = some sent ∧ reminderDays ≤ daysBetween now sent ∧
      reminderThreshold request.remindersSent ≤ daysBetween now sent ∧
      action = actionOn request "AWAITING_ACK" "send_reminder" "REMINDER_SENT"
        ("Send reminder #" ++ toString (wrapI64 (request.remindersSent + 1)) ++ " (" ++
          toString (daysBetween now sent) ++ "d since sent)")
        [("count", .int (wrapI64 (request.remindersSent + 1))),
          ("days_since_sent", .int (daysBetween now sent))] dryRun := by
  unfold reminder
  cases parsed request.sentAt with
  | none => simp
  | some sent =>
    by_cases h : daysBetween now sent < reminderDays
    · simp [h]
    · by_cases h' : daysBetween now sent < reminderThreshold request.remindersSent
      · simp [h, h']
      · simp [h, h', not_lt.1 h, not_lt.1 h', eq_comm]

theorem dpa_eq_some : dpa request now dryRun = some action ↔
    ∃ deadline, parsed request.deadlineAt = some deadline ∧ request.escalationLevel < 2 ∧
      dpaEscalationDays ≤ daysBetween now deadline ∧
      action = actionOn request "OVERDUE" "draft_dpa_complaint" "DPA_COMPLAINT_DRAFTED"
        ("DPA complaint ready (" ++ toString (daysBetween now deadline) ++ "d since deadline)")
        [("days_since_deadline", .int (daysBetween now deadline))] dryRun := by
  unfold dpa
  cases parsed request.deadlineAt with
  | none => simp
  | some deadline =>
    by_cases h : request.escalationLevel ≥ 2
    · have h' : ¬ request.escalationLevel < 2 := not_lt.2 h
      simp only [Option.bind_eq_bind, Option.bind_some, if_pos h, Option.some.injEq,
        exists_eq_left', h', false_and, iff_false]
      exact fun hnone => by cases hnone
    · by_cases h' : daysBetween now deadline < dpaEscalationDays
      · simp [h, h']
      · simp [h, h', not_le.1 h, not_lt.1 h', eq_comm]

theorem rescan_eq_some : rescan request now dryRun = some action ↔
    ∃ resolved, parsed request.resolvedAt = some resolved ∧
      rescanDays ≤ daysBetween now resolved ∧
      action = actionOn request "CONFIRMED" "trigger_rescan" "RE_SCAN_TRIGGERED"
        ("Re-scan due (" ++ toString (daysBetween now resolved) ++ "d since resolution)")
        [("days_since_resolved", .int (daysBetween now resolved))] dryRun := by
  unfold rescan
  cases parsed request.resolvedAt with
  | none => simp
  | some resolved =>
    by_cases h : daysBetween now resolved < rescanDays
    · simp [h]
    · simp [h, not_lt.1 h, eq_comm]

/-- The description of an overdue request. -/
def overdueDetail (request : TickCandidate) (now deadline : DateTime) : String :=
  match parsed request.deadlineAt with
  | some _ => ", passed " ++ pythonTimedelta (now.signedDurationSince deadline)
  | none => " from sent"

theorem deadline_eq_some : Deadlines.deadline request now dryRun = .ok (some action) ↔
    ∃ deadline, effectiveDeadline request = .ok (some deadline) ∧ deadline ≤ now ∧
      action = actionOn request "AWAITING_RESPONSE" "mark_overdue" "DEADLINE_REACHED"
        ("Deadline reached (" ++ toString (jurisdictionDays request.jurisdiction) ++ "d" ++
          overdueDetail request now deadline ++ ")")
        [("deadline_days", .int (jurisdictionDays request.jurisdiction)),
          ("deadline_at", .string (Timeutil.formatIso deadline))] dryRun := by
  unfold Deadlines.deadline
  cases effectiveDeadline request with
  | error e => simp [bind, Except.bind]
  | ok d =>
    cases d with
    | none => simp [bind, Except.bind]
    | some d =>
      by_cases h : now < d
      · simp [bind, Except.bind, h]
      · simp only [bind, Except.bind, if_neg h, Except.ok.injEq, Option.some.injEq, not_lt.1 h,
          exists_eq_left', true_and, overdueDetail]
        exact eq_comm

end Rules

/-! ### The reminder threshold -/

/-- The threshold doubles with each of the first 60 reminders. -/
theorem reminderThreshold_of_le {n : ℕ} (h : n ≤ 60) :
    reminderThreshold n = reminderDays * 2 ^ n := by
  have hpow : (2 : ℤ) ^ n ≤ 2 ^ 60 := pow_le_pow_right₀ (by norm_num) h
  have hpos : (0 : ℤ) < 2 ^ n := by positivity
  have hshift : (n : ℤ) % 18446744073709551616 = n := by omega
  have hshifted : wrapI64 (2 ^ n) = 2 ^ n := wrapI64_of_mem (by omega) (by omega)
  simp only [reminderThreshold, hshift, Int.toNat_natCast, hshifted, reminderDays]
  rw [if_neg (by omega)]
  exact wrapI64_of_mem (by omega) (by omega)

/-- From 61 reminders on the product has left the 64 bits, and no threshold is left. -/
theorem reminderThreshold_nonpos {n : ℕ} (hlo : 60 < n) (hhi : n < 18446744073709551616) :
    reminderThreshold n ≤ 0 := by
  have hshift : (n : ℤ) % 18446744073709551616 = n := by omega
  simp only [reminderThreshold, hshift, Int.toNat_natCast]
  by_cases h : (n : ℤ) ≥ 64
  · rw [if_pos h]
    decide
  · -- the three shifts left below the width of a word
    rw [if_neg h]
    have hcases : n = 61 ∨ n = 62 ∨ n = 63 := by omega
    rcases hcases with rfl | rfl | rfl
    · decide
    · decide
    · decide

/-- The count of the payload of a reminder. -/
def TickAction.count (action : TickAction) : Option Json := action.payload.get "count"

/-- The reminder after `n` others is due `7 * 2 ^ n` days after the request was sent up to
`n = 60`, and 7 days after from then on; its count is the next of 64 bits. -/
theorem reminder_backoff {request : TickCandidate} {now sent : DateTime} {dryRun : Bool} {n : ℕ}
    (hsent : parsed request.sentAt = some sent) (hn : request.remindersSent = n)
    (hmax : n ≤ Chrono.i64Max) :
    ((reminder request now dryRun).isSome ↔
      reminderDays * (if n ≤ 60 then 2 ^ n else 1) ≤ daysBetween now sent) ∧
    ∀ action, reminder request now dryRun = some action →
      action.count = some (.int (if n = Chrono.i64Max then Json.i64Min else n + 1)) := by
  have hmax' : n ≤ 9223372036854775807 := hmax
  constructor
  · rw [Option.isSome_iff_exists]
    have hiff : (∃ action, reminder request now dryRun = some action) ↔
        reminderDays ≤ daysBetween now sent ∧ reminderThreshold n ≤ daysBetween now sent := by
      constructor
      · rintro ⟨action, haction⟩
        obtain ⟨sent', hsent', hdays, hthreshold, -⟩ := reminder_eq_some.1 haction
        rw [hsent] at hsent'
        cases hsent'
        exact ⟨hdays, hn ▸ hthreshold⟩
      · rintro ⟨hdays, hthreshold⟩
        exact ⟨_, reminder_eq_some.2 ⟨sent, hsent, hdays, hn ▸ hthreshold, rfl⟩⟩
    rw [hiff]
    by_cases h : n ≤ 60
    · have hpos : (0 : ℤ) < 2 ^ n := by positivity
      rw [reminderThreshold_of_le h, if_pos h]
      simp only [reminderDays]
      omega
    · have hthreshold := reminderThreshold_nonpos (not_le.1 h) (by omega)
      rw [if_neg h]
      simp only [reminderDays]
      omega
  · intro action haction
    obtain ⟨-, -, -, -, rfl⟩ := reminder_eq_some.1 haction
    have hcount : wrapI64 (request.remindersSent + 1) =
        if n = Chrono.i64Max then Json.i64Min else n + 1 := by
      rw [hn, wrapI64]
      by_cases h : n = Chrono.i64Max
      · rw [if_pos h, h]
        decide
      · have h' : n ≠ 9223372036854775807 := h
        rw [if_neg h]
        omega
    rw [← hcount]
    rfl

/-- A candidate sent on 2026-08-20 with a number of reminders. -/
def reminded (remindersSent : ℤ) : TickCandidate where
  id := 10
  brokerId := "broker-counter"
  campaignId := "golden-tick"
  jurisdiction := "GDPR"
  currentStatus := "AWAITING_ACK"
  sentAt := "2026-08-20T10:00:00+00:00"
  deadlineAt := ""
  nextActionAt := ""
  acknowledgedAt := ""
  resolvedAt := ""
  remindersSent := remindersSent
  escalationLevel := 0

/-- Seven days later the second reminder is not due yet. -/
theorem reminder_backoff_second :
    (reminder (reminded 1) (.ofSecs 1787824800 (by decide)) false).isSome = false := by
  have hsent : parsed (reminded 1).sentAt = some (.ofSecs 1787220000 (by decide)) := by
    decide
  have hbackoff : (reminder (reminded 1) (.ofSecs 1787824800 (by decide)) false).isSome ↔ _ :=
    (reminder_backoff hsent rfl (by decide)).1
  rw [Bool.eq_false_iff, ne_eq, hbackoff]
  decide

/-- Seven days later the reminder after 61 others is due, though `7 * 2 ^ 61` days are not over. -/
theorem reminder_wraps :
    parsed (reminded 61).sentAt = some (.ofSecs 1787220000 (by decide)) ∧
    (reminder (reminded 61) (.ofSecs 1787824800 (by decide)) false).isSome ∧
    ¬ reminderDays * 2 ^ 61 ≤
      daysBetween (.ofSecs 1787824800 (by decide)) (.ofSecs 1787220000 (by decide)) := by
  refine ⟨by decide, by decide, by decide⟩

/-! ### Actions by status -/

section Status

variable {request : TickCandidate} (now : DateTime) (dryRun : Bool)

theorem actionsForCandidate_eq (hne : request.currentStatus ≠ "") :
    actionsForCandidate request now dryRun =
      if request.currentStatus = "AWAITING_ACK" then .ok (reminder request now dryRun).toList
      else if request.currentStatus = "AWAITING_RESPONSE" then
        (Deadlines.deadline request now dryRun).map Option.toList
      else if request.currentStatus = "OVERDUE" then .ok (dpa request now dryRun).toList
      else if request.currentStatus = "CONFIRMED" then .ok (rescan request now dryRun).toList
      else .ok [] := by
  unfold actionsForCandidate
  rw [if_neg hne]

theorem actionsForCandidate_awaitingAck (h : request.currentStatus = "AWAITING_ACK") :
    actionsForCandidate request now dryRun = .ok (reminder request now dryRun).toList := by
  rw [actionsForCandidate_eq now dryRun (by simp [h])]
  simp [h]

theorem actionsForCandidate_awaitingResponse (h : request.currentStatus = "AWAITING_RESPONSE") :
    actionsForCandidate request now dryRun =
      (Deadlines.deadline request now dryRun).map Option.toList := by
  rw [actionsForCandidate_eq now dryRun (by simp [h])]
  simp [h]

theorem actionsForCandidate_overdue (h : request.currentStatus = "OVERDUE") :
    actionsForCandidate request now dryRun = .ok (dpa request now dryRun).toList := by
  rw [actionsForCandidate_eq now dryRun (by simp [h])]
  simp [h]

theorem actionsForCandidate_confirmed (h : request.currentStatus = "CONFIRMED") :
    actionsForCandidate request now dryRun = .ok (rescan request now dryRun).toList := by
  rw [actionsForCandidate_eq now dryRun (by simp [h])]
  simp [h]

theorem actionsForCandidate_other (hack : request.currentStatus ≠ "AWAITING_ACK")
    (hresponse : request.currentStatus ≠ "AWAITING_RESPONSE")
    (hoverdue : request.currentStatus ≠ "OVERDUE") (hconfirmed : request.currentStatus ≠ "CONFIRMED") :
    actionsForCandidate request now dryRun = .ok [] := by
  by_cases h : request.currentStatus = ""
  · simp [actionsForCandidate, h]
  · rw [actionsForCandidate_eq now dryRun h]
    simp [hack, hresponse, hoverdue, hconfirmed]

end Status

/-- The rules give a candidate an action. -/
def Acts (request : TickCandidate) (now : DateTime) (dryRun : Bool) (action : TickAction) : Prop :=
  ∃ actions, actionsForCandidate request now dryRun = .ok actions ∧ action ∈ actions

/-- One rule for each status. -/
theorem acts_iff {request : TickCandidate} {now : DateTime} {dryRun : Bool} {action : TickAction} :
    Acts request now dryRun action ↔
      (request.currentStatus = "AWAITING_ACK" ∧ reminder request now dryRun = some action) ∨
      (request.currentStatus = "AWAITING_RESPONSE" ∧
        Deadlines.deadline request now dryRun = .ok (some action)) ∨
      (request.currentStatus = "OVERDUE" ∧ dpa request now dryRun = some action) ∨
      (request.currentStatus = "CONFIRMED" ∧ rescan request now dryRun = some action) := by
  constructor
  · rintro ⟨actions, hok, hmem⟩
    by_cases hack : request.currentStatus = "AWAITING_ACK"
    · rw [actionsForCandidate_awaitingAck now dryRun hack] at hok
      cases hok
      exact Or.inl ⟨hack, Option.mem_toList.1 hmem⟩
    by_cases hresponse : request.currentStatus = "AWAITING_RESPONSE"
    · rw [actionsForCandidate_awaitingResponse now dryRun hresponse] at hok
      cases hdeadline : Deadlines.deadline request now dryRun with
      | error e => rw [hdeadline] at hok; cases hok
      | ok result =>
        rw [hdeadline] at hok
        cases hok
        exact Or.inr (Or.inl ⟨hresponse, by rw [Option.mem_toList.1 hmem]⟩)
    by_cases hoverdue : request.currentStatus = "OVERDUE"
    · rw [actionsForCandidate_overdue now dryRun hoverdue] at hok
      cases hok
      exact Or.inr (Or.inr (Or.inl ⟨hoverdue, Option.mem_toList.1 hmem⟩))
    by_cases hconfirmed : request.currentStatus = "CONFIRMED"
    · rw [actionsForCandidate_confirmed now dryRun hconfirmed] at hok
      cases hok
      exact Or.inr (Or.inr (Or.inr ⟨hconfirmed, Option.mem_toList.1 hmem⟩))
    · rw [actionsForCandidate_other now dryRun hack hresponse hoverdue hconfirmed] at hok
      cases hok
      cases hmem
  · rintro (⟨hstatus, h⟩ | ⟨hstatus, h⟩ | ⟨hstatus, h⟩ | ⟨hstatus, h⟩)
    · exact ⟨_, actionsForCandidate_awaitingAck now dryRun hstatus, Option.mem_toList.2 h⟩
    · refine ⟨[action], ?_, List.mem_singleton_self action⟩
      rw [actionsForCandidate_awaitingResponse now dryRun hstatus, h]
      rfl
    · exact ⟨_, actionsForCandidate_overdue now dryRun hstatus, Option.mem_toList.2 h⟩
    · exact ⟨_, actionsForCandidate_confirmed now dryRun hstatus, Option.mem_toList.2 h⟩

/-! ### When a complaint is drafted -/

/-- The candidate is returned a draft of a complaint. -/
def Drafts (request : TickCandidate) (now : DateTime) (dryRun : Bool) : Prop :=
  ∃ action, Acts request now dryRun action ∧ action.actionType = "draft_dpa_complaint"

/-- A complaint is drafted for an overdue request below level 2 whose deadline is 14 days past. -/
theorem drafts_iff (request : TickCandidate) (now : DateTime) (dryRun : Bool) :
    Drafts request now dryRun ↔
      request.currentStatus = "OVERDUE" ∧ request.escalationLevel < 2 ∧
        ∃ deadline, parsed request.deadlineAt = some deadline ∧
          dpaEscalationDays ≤ daysBetween now deadline := by
  constructor
  · rintro ⟨action, hacts, htype⟩
    rcases acts_iff.1 hacts with ⟨-, h⟩ | ⟨-, h⟩ | ⟨hoverdue, h⟩ | ⟨-, h⟩
    · obtain ⟨sent, -, -, -, rfl⟩ := reminder_eq_some.1 h
      exact absurd htype (by simp [actionOn])
    · obtain ⟨deadline, -, -, rfl⟩ := deadline_eq_some.1 h
      exact absurd htype (by simp [actionOn])
    · obtain ⟨deadline, hparsed, hlevel, hdays, -⟩ := dpa_eq_some.1 h
      exact ⟨hoverdue, hlevel, deadline, hparsed, hdays⟩
    · obtain ⟨resolved, -, -, rfl⟩ := rescan_eq_some.1 h
      exact absurd htype (by simp [actionOn])
  · rintro ⟨hstatus, hlevel, deadline, hparsed, hdays⟩
    have hdpa : ∃ action, dpa request now dryRun = some action ∧
        action.actionType = "draft_dpa_complaint" :=
      ⟨_, dpa_eq_some.2 ⟨deadline, hparsed, hlevel, hdays, rfl⟩, rfl⟩
    obtain ⟨action, hsome, htype⟩ := hdpa
    exact ⟨action, acts_iff.2 (Or.inr (Or.inr (Or.inl ⟨hstatus, hsome⟩))), htype⟩

/-! ### Histories -/

/-- The candidate of a request whose state is the projection of a history. -/
def projectedCandidate (id : ℤ) (columns : RequestColumns) (events : List EventRecord)
    (written : DateTime) : TickCandidate :=
  tickCandidate (id, columns) (stateColumns (foldEvents arch id events) written)

theorem statusFor_eq_overdue {t : EventType} : statusFor t = some "OVERDUE" ↔ t = .deadlineReached := by
  cases t <;> simp [statusFor]

/-- The status of a projected state is OVERDUE after a DEADLINE_REACHED event only. -/
theorem overdue_iff (id : ℤ) (events : List EventRecord) :
    (foldEvents arch id events).currentStatus = "OVERDUE" ↔
      lastTransition events = some .deadlineReached := by
  rw [foldEvents_currentStatus]
  cases lastTransition events with
  | none => simp
  | some t =>
    rw [Option.bind_some, Option.some.injEq, ← statusFor_eq_overdue]
    cases statusFor t with
    | none => simp
    | some status => simp

/-- Any history, with a complaint in it or not, gets no complaint at an instant exactly when its
last status is not that of DEADLINE_REACHED, or it has no deadline, or the deadline is less than
14 days past. -/
theorem noDraft_iff (id : ℤ) (columns : RequestColumns) (events : List EventRecord)
    (written now : DateTime) (dryRun : Bool) :
    ¬ Drafts (projectedCandidate arch id columns events written) now dryRun ↔
      ¬ (lastTransition events = some .deadlineReached ∧
        ∃ deadline, lastDeadline arch events = some deadline ∧
          dpaEscalationDays ≤ daysBetween now deadline.trunc) := by
  rw [drafts_iff, not_iff_not]
  have hstatus : (projectedCandidate arch id columns events written).currentStatus = "OVERDUE" ↔
      lastTransition events = some .deadlineReached := overdue_iff arch id events
  have hdeadline : parsed (projectedCandidate arch id columns events written).deadlineAt =
      (lastDeadline arch events).map DateTime.trunc := by
    change parsed ((foldEvents arch id events).deadlineAt.getD "") = _
    rw [foldEvents_deadlineAt]
    cases lastDeadline arch events with
    | none => rfl
    | some deadline => exact parsed_formatIso deadline
  rw [hstatus, hdeadline]
  constructor
  · rintro ⟨hlast, -, deadline, hparsed, hdays⟩
    obtain ⟨deadline', hlast', rfl⟩ := Option.map_eq_some_iff.1 hparsed
    exact ⟨hlast, deadline', hlast', hdays⟩
  · rintro ⟨hlast, deadline, hlast', hdays⟩
    have hlevel : (projectedCandidate arch id columns events written).escalationLevel = 1 :=
      foldEvents_escalationLevel arch id events hlast
    exact ⟨hlast, by rw [hlevel]; decide, deadline.trunc, by rw [hlast']; rfl, hdays⟩

/-- Sent on 2026-01-01, overdue on 2026-02-01, a complaint on 2026-02-20, a rebuttal the day
after, and overdue again on 2026-02-22. -/
def rebuttedComplaint : List EventRecord :=
  [appendedEvent 1 1 .sent [("expected_response_days", .int 30)] .system
      (.ofSecs 1767225600 jan1_inRange) epoch,
    appendedEvent 2 1 .deadlineReached [] .scheduler (.ofSecs 1769904000 feb1_inRange) epoch,
    appendedEvent 3 1 .dpaComplaintDrafted [] .scheduler (.ofSecs 1771545600 (by decide)) epoch,
    appendedEvent 4 1 .rebuttalSent [] .user (.ofSecs 1771632000 (by decide)) epoch,
    appendedEvent 5 1 .deadlineReached [] .scheduler (.ofSecs 1771718400 (by decide)) epoch]

/-- On 2026-03-01 a second complaint is drafted. -/
theorem drafts_rebuttedComplaint :
    (∃ event ∈ rebuttedComplaint, event.eventType = .dpaComplaintDrafted) ∧
    Drafts (projectedCandidate .x86_64 1 ⟨"acme", "email", "spring", "", "GDPR", "", ""⟩
      rebuttedComplaint epoch) (.ofSecs 1772323200 (by decide)) false := by
  refine ⟨by decide, (drafts_iff _ _ _).2 ⟨by decide, by decide, ?_⟩⟩
  exact ⟨.ofSecs 1769817600 (by decide), by decide, by decide⟩

end EraseMe.Deadlines
