import EraseMe.Escalation
import EraseMe.Library.Result

/-!
# Two ticks at one instant

A tick moves each request at most one step, and the event of the step is appended at the instant
of the tick: `secondTick` says what a second tick at the same instant then finds.  A reminder or a
passed deadline may make the next step due at once, after a long gap; nothing else is left.

The tick reads the projected states, and the new events are replayed last; so the states have to
be current and no stored event may sort after the instant (`TickReady`).
-/

namespace EraseMe.Deadlines

open Chrono Json Sqlite Storage

variable {τ : Type} {A : Reply → Prop} (arch : TargetArch)

/-! ### What a tick returns -/

/-- An action is on its candidate, and its event is of the catalogue with a flat payload. -/
structure TickAction.Proper (action : TickAction) (requestId : ℤ) (dryRun : Bool) : Prop where
  requestId_eq : action.requestId = requestId
  dryRun_eq : action.dryRun = dryRun
  eventType_known : ∀ v, EventType.fromWire action.eventType ≠ .unknown v
  decodes_payload : decodes (.object action.payload) = true

theorem Acts.proper {request : TickCandidate} {now : DateTime} {dryRun : Bool} {action : TickAction}
    (h : Acts request now dryRun action) : action.Proper request.id dryRun := by
  have hknown : ∀ value ∈ ["REMINDER_SENT", "DEADLINE_REACHED", "DPA_COMPLAINT_DRAFTED",
      "RE_SCAN_TRIGGERED"], ∀ v, EventType.fromWire value ≠ .unknown v := fun value hvalue =>
    (EventType.inCatalogue_iff _).1 (by revert value; decide)
  rcases acts_iff.1 h with ⟨-, h⟩ | ⟨-, h⟩ | ⟨-, h⟩ | ⟨-, h⟩
  · obtain ⟨sent, -, -, -, rfl⟩ := reminder_eq_some.1 h
    exact ⟨rfl, rfl, hknown _ (by simp [actionOn]), rfl⟩
  · obtain ⟨deadline, -, -, rfl⟩ := deadline_eq_some.1 h
    exact ⟨rfl, rfl, hknown _ (by simp [actionOn]), rfl⟩
  · obtain ⟨deadline, -, -, -, rfl⟩ := dpa_eq_some.1 h
    exact ⟨rfl, rfl, hknown _ (by simp [actionOn]), rfl⟩
  · obtain ⟨resolved, -, -, rfl⟩ := rescan_eq_some.1 h
    exact ⟨rfl, rfl, hknown _ (by simp [actionOn]), rfl⟩

/-- A candidate gets at most one action. -/
theorem actionsForCandidate_eq_toList {request : TickCandidate} {now : DateTime} {dryRun : Bool}
    {actions : List TickAction} (h : actionsForCandidate request now dryRun = .ok actions) :
    ∃ action : Option TickAction, actions = action.toList := by
  simp only [actionsForCandidate] at h
  generalize (if request.currentStatus = "" then "PLANNED" else request.currentStatus) = status at h
  split_ifs at h
  · cases h
    exact ⟨_, rfl⟩
  · cases hdeadline : Deadlines.deadline request now dryRun with
    | error e => rw [hdeadline] at h; cases h
    | ok result =>
      rw [hdeadline] at h
      cases h
      exact ⟨result, rfl⟩
  · cases h
    exact ⟨_, rfl⟩
  · cases h
    exact ⟨_, rfl⟩
  · cases h
    exact ⟨none, rfl⟩

section Candidates

variable {now : DateTime} {dryRun : Bool} {requests : List TickCandidate}
  {actions : List TickAction}

theorem actionsForCandidates_cons {request : TickCandidate} :
    actionsForCandidates now dryRun (request :: requests) = .ok actions ↔
      ∃ head tail, actionsForCandidate request now dryRun = .ok head ∧
        actionsForCandidates now dryRun requests = .ok tail ∧ actions = head ++ tail := by
  rw [actionsForCandidates, Result.bind_eq_ok]
  constructor
  · rintro ⟨head, hhead, h⟩
    obtain ⟨tail, htail, h⟩ := Result.bind_eq_ok.1 h
    cases h
    exact ⟨head, tail, hhead, htail, rfl⟩
  · rintro ⟨head, tail, hhead, htail, rfl⟩
    exact ⟨head, hhead, Result.bind_eq_ok.2 ⟨tail, htail, rfl⟩⟩

theorem mem_actionsForCandidates (h : actionsForCandidates now dryRun requests = .ok actions)
    (action : TickAction) : action ∈ actions ↔ ∃ request ∈ requests, Acts request now dryRun action := by
  induction requests generalizing actions with
  | nil => cases h; simp
  | cons request requests ih =>
    obtain ⟨head, tail, hhead, htail, rfl⟩ := actionsForCandidates_cons.1 h
    rw [List.mem_append, ih htail]
    have hacts : action ∈ head ↔ Acts request now dryRun action := by
      constructor
      · exact fun hmem => ⟨head, hhead, hmem⟩
      · rintro ⟨head', hhead', hmem⟩
        rw [hhead] at hhead'
        cases hhead'
        exact hmem
    simp [hacts]

/-- Candidates of different requests give actions on different requests. -/
theorem nodup_actionsForCandidates (h : actionsForCandidates now dryRun requests = .ok actions)
    (hnodup : (requests.map TickCandidate.id).Nodup) :
    (actions.map TickAction.requestId).Nodup := by
  induction requests generalizing actions with
  | nil => cases h; simp
  | cons request requests ih =>
    obtain ⟨head, tail, hhead, htail, rfl⟩ := actionsForCandidates_cons.1 h
    rw [List.map_cons, List.nodup_cons] at hnodup
    obtain ⟨action, rfl⟩ := actionsForCandidate_eq_toList hhead
    cases action with
    | none => exact ih htail hnodup.2
    | some action =>
      have hproper := Acts.proper ⟨_, hhead, List.mem_singleton_self action⟩
      refine List.nodup_cons.2 ⟨fun hmem => hnodup.1 ?_, ih htail hnodup.2⟩
      obtain ⟨action', hmem', hid⟩ := List.mem_map.1 hmem
      obtain ⟨request', hrequest', hacts'⟩ := (mem_actionsForCandidates htail action').1 hmem'
      refine List.mem_map.2 ⟨request', hrequest', ?_⟩
      rw [← hacts'.proper.requestId_eq, hid, hproper.requestId_eq]

/-- Whether a list of candidates stops the program does not depend on its order. -/
theorem actionsForCandidates_ok_iff :
    (∃ actions, actionsForCandidates now dryRun requests = .ok actions) ↔
      ∀ request ∈ requests, ∃ actions, actionsForCandidate request now dryRun = .ok actions := by
  induction requests with
  | nil =>
    constructor
    · intro _ request h
      cases h
    · exact fun _ => ⟨[], rfl⟩
  | cons request requests ih =>
    rw [List.forall_mem_cons, ← ih]
    constructor
    · rintro ⟨actions, h⟩
      obtain ⟨head, tail, hhead, htail, -⟩ := actionsForCandidates_cons.1 h
      exact ⟨⟨head, hhead⟩, tail, htail⟩
    · rintro ⟨⟨head, hhead⟩, tail, htail⟩
      exact ⟨_, actionsForCandidates_cons.2 ⟨head, tail, hhead, htail, rfl⟩⟩

end Candidates

/-! ### Candidates of current states -/

theorem mem_dueRows {db : Store} {nowIso : String} {due : Option String × TickCandidate} :
    due ∈ db.dueRows nowIso ↔ ∃ row ∈ db.requests.rows, ∃ state, db.state row.1 = some state ∧
      (state.nextActionAt.all fun text => text ≤ nowIso) = true ∧
      due = (state.nextActionAt, tickCandidate row state) := by
  rw [Store.dueRows, List.mem_filterMap]
  refine exists_congr fun row => and_congr_right fun _ => ?_
  cases db.state row.1 with
  | none => simp
  | some state =>
    by_cases h : (state.nextActionAt.all fun text => text ≤ nowIso) = true
    · simp only [h, if_true, Option.some.injEq, exists_eq_left', true_and]
      exact eq_comm
    · simp [h]

/-- A due row of a request carries its id. -/
theorem dueRow_id {db : Store} {nowIso : String} {row : ℤ × RequestColumns}
    {due : Option String × TickCandidate}
    (h : (match db.state row.1 with
      | some state =>
          if state.nextActionAt.all fun text => text ≤ nowIso then
            some (state.nextActionAt, tickCandidate row state)
          else none
      | none => none) = some due) : due.2.id = row.1 := by
  cases hstate : db.state row.1 with
  | none => rw [hstate] at h; cases h
  | some state =>
    rw [hstate] at h
    by_cases hdue : (state.nextActionAt.all fun text => text ≤ nowIso) = true
    · simp only [hdue, if_true] at h
      cases h
      rfl
    · simp [hdue] at h

theorem nodup_dueRows (db : Store) (nowIso : String) :
    ((db.dueRows nowIso).map fun due => due.2.id).Nodup := by
  have hsorted : (db.dueRows nowIso).Pairwise fun a b => a.2.id < b.2.id := by
    rw [Store.dueRows, List.pairwise_filterMap]
    refine db.requests.ascending.imp fun {a b} hab x hx y hy => ?_
    rw [dueRow_id hx, dueRow_id hy]
    exact hab
  rw [List.Nodup, List.pairwise_map]
  exact hsorted.imp fun hab => hab.ne

/-- The candidate of a request does not depend on when its state was written. -/
def Store.candidate (db : Store) (row : ℤ × RequestColumns) : TickCandidate :=
  projectedCandidate arch row.1 row.2 (db.replayed row.1) epoch

/-- A candidate does not hold when its state was written. -/
theorem candidate_eq (db : Store) (row : ℤ × RequestColumns) (written : DateTime) :
    Store.candidate arch db row =
      tickCandidate row (stateColumns (foldEvents arch row.1 (db.replayed row.1)) written) := by
  simp only [Store.candidate, projectedCandidate, tickCandidate, stateColumns]

/-- Where the states are current, a tick evaluates every request that has one. -/
theorem mem_candidates {db : Store} {nowIso : String}
    (hcurrent : ∀ id, (db.state id).isSome → db.Current arch id) {request : TickCandidate} :
    request ∈ (db.dueRows nowIso).map Prod.snd ↔
      ∃ row ∈ db.requests.rows, (db.state row.1).isSome ∧ request = Store.candidate arch db row := by
  rw [List.mem_map]
  constructor
  · rintro ⟨due, hdue, rfl⟩
    obtain ⟨row, hrow, state, hstate, -, rfl⟩ := mem_dueRows.1 hdue
    have hsome : (db.state row.1).isSome := by rw [hstate]; rfl
    obtain ⟨written, hcur⟩ := hcurrent row.1 hsome
    rw [hstate] at hcur
    cases hcur
    exact ⟨row, hrow, hsome, (candidate_eq arch db row written).symm⟩
  · rintro ⟨row, hrow, hsome, rfl⟩
    obtain ⟨written, hcur⟩ := hcurrent row.1 hsome
    rw [candidate_eq arch db row written]
    refine ⟨_, mem_dueRows.2 ⟨row, hrow, _, hcur, ?_, rfl⟩, rfl⟩
    have hnone : (stateColumns (foldEvents arch row.1 (db.replayed row.1)) written).nextActionAt =
        none := foldEvents_nextActionAt arch _ _
    rw [hnone]
    rfl

/-- What a tick over current states returns. -/
structure Store.Ticks (db : Store) (now : DateTime) (dryRun : Bool) (actions : List TickAction) :
    Prop where
  mem_iff : ∀ action, action ∈ actions ↔ ∃ row ∈ db.requests.rows, (db.state row.1).isSome ∧
    Acts (Store.candidate arch db row) now dryRun action
  nodup : (actions.map TickAction.requestId).Nodup
  total : ∀ row ∈ db.requests.rows, (db.state row.1).isSome →
    ∃ actions, actionsForCandidate (Store.candidate arch db row) now dryRun = .ok actions

/-- A tick without a batch limit; it fails with the query, or stops at a candidate. -/
theorem runTick_spec {opts : RunOpts} (hbatch : opts.batchSize ≤ 0) (now : DateTime) (db₀ : Store)
    (tr₀ : List τ) (hcurrent : ∀ id, (db₀.state id).isSome → db₀.Current arch id) :
    Triple A (fun db tr => db = db₀ ∧ tr = tr₀) (runTick opts now) fun r db tr =>
      db = db₀ ∧ tr = tr₀ ∧ match r with
        | .ok actions => Store.Ticks arch db₀ now opts.dryRun actions
        | .error (.database _) => CanFail A
        | .error (.stopped _) => ∃ row ∈ db₀.requests.rows, (db₀.state row.1).isSome ∧
            ∀ actions, actionsForCandidate (Store.candidate arch db₀ row) now opts.dryRun ≠
              .ok actions := by
  unfold runTick
  refine Triple.bind
    (R := fun r db tr => db = db₀ ∧ tr = tr₀ ∧ match r with
      | .ok candidates => candidates.Perm ((db₀.dueRows (Timeutil.formatIso now)).map Prod.snd)
      | .error (.database _) => CanFail A
      | .error (.stopped _) => False) ?_ (fun candidates => ?_) ?_
  · refine Triple.mapError (Triple.query ?_ ?_)
    · rintro r db tr - ⟨rfl, rfl⟩
      refine ⟨rfl, rfl, ?_⟩
      simp only [Except.mapError, gt_iff_lt, not_lt.2 hbatch, if_false]
      exact (List.perm_insertionSort _ _).map _
    · rintro r db tr e hr ⟨rfl, rfl⟩ he
      exact ⟨rfl, rfl, r, e, hr, he⟩
  · have hmem : ∀ {request}, candidates.Perm ((db₀.dueRows (Timeutil.formatIso now)).map Prod.snd) →
        (request ∈ candidates ↔ ∃ row ∈ db₀.requests.rows, (db₀.state row.1).isSome ∧
          request = Store.candidate arch db₀ row) := fun hperm =>
      hperm.mem_iff.trans (mem_candidates arch hcurrent)
    cases h : actionsForCandidates now opts.dryRun candidates with
    | ok actions =>
      refine Triple.pure fun db tr hR => ⟨hR.1, hR.2.1, ?_, ?_, ?_⟩
      · intro action
        rw [mem_actionsForCandidates h]
        constructor
        · rintro ⟨request, hrequest, hacts⟩
          obtain ⟨row, hrow, hsome, rfl⟩ := (hmem hR.2.2).1 hrequest
          exact ⟨row, hrow, hsome, hacts⟩
        · rintro ⟨row, hrow, hsome, hacts⟩
          exact ⟨_, (hmem hR.2.2).2 ⟨row, hrow, hsome, rfl⟩, hacts⟩
      · refine nodup_actionsForCandidates h ((hR.2.2.map _).nodup_iff.2 ?_)
        rw [List.map_map]
        exact nodup_dueRows db₀ _
      · intro row hrow hsome
        exact actionsForCandidates_ok_iff.1 ⟨actions, h⟩ _
          ((hmem hR.2.2).2 ⟨row, hrow, hsome, rfl⟩)
    | error message =>
      refine Triple.fail fun db tr hR => ⟨hR.1, hR.2.1, ?_⟩
      have hnot : ¬ ∀ request ∈ candidates,
          ∃ actions, actionsForCandidate request now opts.dryRun = .ok actions := by
        rw [← actionsForCandidates_ok_iff, h]
        rintro ⟨actions, hok⟩
        cases hok
      push Not at hnot
      obtain ⟨request, hrequest, hstop⟩ := hnot
      obtain ⟨row, hrow, hsome, rfl⟩ := (hmem hR.2.2).1 hrequest
      exact ⟨row, hrow, hsome, hstop⟩
  · rintro e db tr ⟨hdb, htr, h⟩
    refine ⟨hdb, htr, ?_⟩
    cases e with
    | database message => exact h
    | stopped message => cases h

/-! ### The next step of a request -/

/-- The reminder count after a reminder, as the projection reads it back. -/
def nextCount (remindersSent : ℤ) : ℤ :=
  let count := (payloadInteger arch [("count", .int (wrapI64 (remindersSent + 1)))] "count").getD 0
  if count = 0 then 1 else count

/-- The next step of a request is due at once after a step: the types of the two events. -/
def FollowUp (request : TickCandidate) (now : DateTime) (first second : String) : Prop :=
  (first = "REMINDER_SENT" ∧ second = "REMINDER_SENT" ∧
    ∃ sent, parsed request.sentAt = some sent ∧
      reminderThreshold (nextCount arch request.remindersSent) ≤ daysBetween now sent) ∨
  (first = "DEADLINE_REACHED" ∧ second = "DPA_COMPLAINT_DRAFTED" ∧
    ∃ deadline, parsed request.deadlineAt = some deadline ∧
      dpaEscalationDays ≤ daysBetween now deadline)

section Step

variable (id : ℤ) (columns : RequestColumns) (old : List EventRecord) (eventId : ℤ)
  (payload : Map) {now : DateTime} (recordedAt : DateTime)

/-- The event appended by the tick. -/
def tickEvent (id eventId : ℤ) (eventType : EventType) (payload : Map) (now recordedAt : DateTime) :
    EventRecord :=
  appendedEvent eventId id eventType payload .scheduler now recordedAt

theorem tickEvent_not_skipped {eventType : EventType} (ht : eventType ≠ .unknown "")
    (hzero : isGoZeroTime now.trunc = false) :
    ¬ (tickEvent id eventId eventType payload now recordedAt).Skipped := by
  rintro (h | h)
  · exact ht h
  · rw [show isGoZeroTime (tickEvent id eventId eventType payload now recordedAt).occurredAt = false
      from hzero] at h
    cases h

theorem projectedCandidate_append {event : EventRecord} (h : ¬ event.Skipped) :
    projectedCandidate arch id columns (old ++ [event]) epoch =
      tickCandidate (id, columns)
        (stateColumns (effect arch event ((foldEvents arch id old).note event)) epoch) := by
  rw [projectedCandidate, foldEvents_append, replayEvent_of_not_skipped arch h]

variable (hzero : isGoZeroTime now.trunc = false)

include hzero

theorem candidate_reminded (count days : ℤ) :
    projectedCandidate arch id columns (old ++ [tickEvent id eventId .reminderSent
        [("count", .int count), ("days_since_sent", .int days)] now recordedAt]) epoch =
      { projectedCandidate arch id columns old epoch with
        currentStatus := "AWAITING_ACK"
        remindersSent :=
          let n := (payloadInteger arch [("count", .int count)] "count").getD 0
          if n = 0 then 1 else n } := by
  rw [projectedCandidate_append arch id columns old
    (tickEvent_not_skipped id eventId _ recordedAt (by simp) hzero)]
  have hcount : payloadInteger arch
      (sortedMap [("count", .int count), ("days_since_sent", .int days)]) "count" =
      payloadInteger arch [("count", .int count)] "count" := by
    simp only [payloadInteger, get_sortedMap, Map.get_cons, if_true, Option.map_some]
    rw [goMapOrder]
    all_goals simp
  simp only [← hcount]
  rfl

theorem candidate_overdue :
    projectedCandidate arch id columns
        (old ++ [tickEvent id eventId .deadlineReached payload now recordedAt]) epoch =
      { projectedCandidate arch id columns old epoch with
        currentStatus := "OVERDUE"
        escalationLevel := 1 } := by
  rw [projectedCandidate_append arch id columns old
    (tickEvent_not_skipped id eventId _ recordedAt (by simp) hzero)]
  rfl

theorem candidate_escalated :
    projectedCandidate arch id columns
        (old ++ [tickEvent id eventId .dpaComplaintDrafted payload now recordedAt]) epoch =
      { projectedCandidate arch id columns old epoch with
        currentStatus := "ESCALATED"
        escalationLevel := 2 } := by
  rw [projectedCandidate_append arch id columns old
    (tickEvent_not_skipped id eventId _ recordedAt (by simp) hzero)]
  rfl

theorem candidate_rescanned :
    projectedCandidate arch id columns
        (old ++ [tickEvent id eventId .rescanTriggered payload now recordedAt]) epoch =
      { projectedCandidate arch id columns old epoch with currentStatus := "RE_SCAN_DUE" } := by
  rw [projectedCandidate_append arch id columns old
    (tickEvent_not_skipped id eventId _ recordedAt (by simp) hzero)]
  rfl

end Step

section Second

variable {request : TickCandidate} {now : DateTime} {eventType : String}

theorem exists_acts_awaitingAck (h : request.currentStatus = "AWAITING_ACK") :
    (∃ action, Acts request now false action ∧ action.eventType = eventType) ↔
      eventType = "REMINDER_SENT" ∧ ∃ sent, parsed request.sentAt = some sent ∧
        reminderDays ≤ daysBetween now sent ∧
        reminderThreshold request.remindersSent ≤ daysBetween now sent := by
  constructor
  · rintro ⟨action, hacts, rfl⟩
    rcases acts_iff.1 hacts with ⟨-, hrule⟩ | ⟨h', -⟩ | ⟨h', -⟩ | ⟨h', -⟩
    · obtain ⟨sent, hsent, hdays, hthreshold, rfl⟩ := reminder_eq_some.1 hrule
      exact ⟨rfl, sent, hsent, hdays, hthreshold⟩
    all_goals exact absurd (h.symm.trans h') (by decide)
  · rintro ⟨rfl, sent, hsent, hdays, hthreshold⟩
    have hrule : ∃ action, reminder request now false = some action ∧
        action.eventType = "REMINDER_SENT" :=
      ⟨_, reminder_eq_some.2 ⟨sent, hsent, hdays, hthreshold, rfl⟩, rfl⟩
    obtain ⟨action, hsome, htype⟩ := hrule
    exact ⟨action, acts_iff.2 (Or.inl ⟨h, hsome⟩), htype⟩

theorem exists_acts_overdue (h : request.currentStatus = "OVERDUE") :
    (∃ action, Acts request now false action ∧ action.eventType = eventType) ↔
      eventType = "DPA_COMPLAINT_DRAFTED" ∧ ∃ deadline, parsed request.deadlineAt = some deadline ∧
        request.escalationLevel < 2 ∧ dpaEscalationDays ≤ daysBetween now deadline := by
  constructor
  · rintro ⟨action, hacts, rfl⟩
    rcases acts_iff.1 hacts with ⟨h', -⟩ | ⟨h', -⟩ | ⟨-, hrule⟩ | ⟨h', -⟩
    · exact absurd (h.symm.trans h') (by decide)
    · exact absurd (h.symm.trans h') (by decide)
    · obtain ⟨deadline, hparsed, hlevel, hdays, rfl⟩ := dpa_eq_some.1 hrule
      exact ⟨rfl, deadline, hparsed, hlevel, hdays⟩
    · exact absurd (h.symm.trans h') (by decide)
  · rintro ⟨rfl, deadline, hparsed, hlevel, hdays⟩
    have hrule : ∃ action, dpa request now false = some action ∧
        action.eventType = "DPA_COMPLAINT_DRAFTED" :=
      ⟨_, dpa_eq_some.2 ⟨deadline, hparsed, hlevel, hdays, rfl⟩, rfl⟩
    obtain ⟨action, hsome, htype⟩ := hrule
    exact ⟨action, acts_iff.2 (Or.inr (Or.inr (Or.inl ⟨h, hsome⟩))), htype⟩

/-- The statuses without a rule. -/
theorem not_acts_of_status (hack : request.currentStatus ≠ "AWAITING_ACK")
    (hresponse : request.currentStatus ≠ "AWAITING_RESPONSE")
    (hoverdue : request.currentStatus ≠ "OVERDUE") (hconfirmed : request.currentStatus ≠ "CONFIRMED")
    (action : TickAction) : ¬ Acts request now false action := by
  rintro ⟨actions, hok, hmem⟩
  rw [actionsForCandidate_other now false hack hresponse hoverdue hconfirmed] at hok
  cases hok
  cases hmem

end Second

/-- After the step of an action, exactly the follow-up is due. -/
theorem acts_after_iff {id : ℤ} {columns : RequestColumns} {old : List EventRecord} {now : DateTime}
    (hzero : isGoZeroTime now.trunc = false) {first : TickAction}
    (h : Acts (projectedCandidate arch id columns old epoch) now false first) (eventId : ℤ)
    (recordedAt : DateTime) :
    let next := projectedCandidate arch id columns (old ++ [tickEvent id eventId
      (.fromWire first.eventType) first.payload now recordedAt]) epoch
    (∃ actions, actionsForCandidate next now false = .ok actions) ∧
    ∀ eventType, (∃ second, Acts next now false second ∧ second.eventType = eventType) ↔
      FollowUp arch (projectedCandidate arch id columns old epoch) now first.eventType eventType := by
  intro next
  rcases acts_iff.1 h with ⟨hstatus, h⟩ | ⟨hstatus, h⟩ | ⟨hstatus, h⟩ | ⟨hstatus, h⟩
  · obtain ⟨sent, hsent, hdays, -, rfl⟩ := reminder_eq_some.1 h
    have hnext : next = _ := candidate_reminded arch id columns old eventId recordedAt hzero _ _
    have hack : next.currentStatus = "AWAITING_ACK" := by rw [hnext]
    refine ⟨⟨_, actionsForCandidate_awaitingAck now false hack⟩, fun eventType => ?_⟩
    rw [exists_acts_awaitingAck hack, hnext]
    constructor
    · rintro ⟨rfl, sent', hsent', -, hthreshold⟩
      exact Or.inl ⟨rfl, rfl, sent', hsent', hthreshold⟩
    · rintro (⟨-, rfl, sent', hsent', hthreshold⟩ | ⟨hne, -⟩)
      · rw [hsent] at hsent'
        cases hsent'
        exact ⟨rfl, sent, hsent, hdays, hthreshold⟩
      · exact absurd hne (by simp [actionOn])
  · obtain ⟨deadline, -, -, rfl⟩ := deadline_eq_some.1 h
    have hnext : next = _ := candidate_overdue arch id columns old eventId _ recordedAt hzero
    have hoverdue : next.currentStatus = "OVERDUE" := by rw [hnext]
    refine ⟨⟨_, actionsForCandidate_overdue now false hoverdue⟩, fun eventType => ?_⟩
    rw [exists_acts_overdue hoverdue, hnext]
    constructor
    · rintro ⟨rfl, deadline', hparsed, -, hdays⟩
      exact Or.inr ⟨rfl, rfl, deadline', hparsed, hdays⟩
    · rintro (⟨hne, -⟩ | ⟨-, rfl, deadline', hparsed, hdays⟩)
      · exact absurd hne (by simp [actionOn])
      · exact ⟨rfl, deadline', hparsed, (by decide : (1 : ℤ) < 2), hdays⟩
  · -- the request is escalated, and no rule is for that status
    obtain ⟨deadline, -, -, -, rfl⟩ := dpa_eq_some.1 h
    have hnext : next = _ := candidate_escalated arch id columns old eventId _ recordedAt hzero
    have hother : next.currentStatus = "ESCALATED" := by rw [hnext]
    refine ⟨⟨_, actionsForCandidate_other now false (by rw [hother]; decide) (by rw [hother]; decide)
      (by rw [hother]; decide) (by rw [hother]; decide)⟩, fun eventType => ?_⟩
    constructor
    · rintro ⟨second, hacts, -⟩
      exact absurd hacts (not_acts_of_status (by rw [hother]; decide) (by rw [hother]; decide)
        (by rw [hother]; decide) (by rw [hother]; decide) second)
    · rintro (⟨hne, -⟩ | ⟨hne, -⟩)
      · exact absurd hne (by simp [actionOn])
      · exact absurd hne (by simp [actionOn])
  · obtain ⟨resolved, -, -, rfl⟩ := rescan_eq_some.1 h
    have hnext : next = _ := candidate_rescanned arch id columns old eventId _ recordedAt hzero
    have hother : next.currentStatus = "RE_SCAN_DUE" := by rw [hnext]
    refine ⟨⟨_, actionsForCandidate_other now false (by rw [hother]; decide) (by rw [hother]; decide)
      (by rw [hother]; decide) (by rw [hother]; decide)⟩, fun eventType => ?_⟩
    constructor
    · rintro ⟨second, hacts, -⟩
      exact absurd hacts (not_acts_of_status (by rw [hother]; decide) (by rw [hother]; decide)
        (by rw [hother]; decide) (by rw [hother]; decide) second)
    · rintro (⟨hne, -⟩ | ⟨hne, -⟩)
      · exact absurd hne (by simp [actionOn])
      · exact absurd hne (by simp [actionOn])

/-! ### Applying the actions -/

/-- A store a tick is run on: the states are current, no stored event sorts after the instant,
and the instant is not in the zero second. -/
structure TickReady (db : Store) (now : DateTime) : Prop where
  not_zero : isGoZeroTime now.trunc = false
  texts_le : ∀ row ∈ db.events.rows, row.2.occurredAt ≤ Timeutil.formatSql now
  current : AllCurrent arch db

/-- The store after some of the actions of a tick: each has appended its event at the end. -/
structure Ticked (db₀ : Store) (now : DateTime) (done : List TickAction) (db : Store) : Prop where
  requests_eq : db.requests = db₀.requests
  untouched : ∀ id, (∀ action ∈ done, action.requestId ≠ id) → db.eventRows id = db₀.eventRows id
  touched : ∀ action ∈ done, ∃ eventId recordedAt, db.replayed action.requestId =
    db₀.replayed action.requestId ++ [tickEvent action.requestId eventId
      (.fromWire action.eventType) action.payload now recordedAt]
  current : ∀ id, (db.state id).isSome → db.Current arch id
  present : ∀ id, (db₀.state id).isSome → (db.state id).isSome

theorem ticked_start {db : Store} {now : DateTime} (h : TickReady arch db now) :
    Ticked arch db now [] db :=
  ⟨rfl, fun _ _ => rfl, by simp, fun id hsome => h.current id (Or.inl hsome), fun _ hsome => hsome⟩

theorem ticked_projected {db₀ db : Store} {now : DateTime} {done : List TickAction}
    (h : Ticked arch db₀ now done db) (id : ℤ) (written : DateTime) :
    Ticked arch db₀ now done (db.projected arch id written) := by
  refine ⟨h.requests_eq, h.untouched, h.touched, fun id' hsome => ?_, fun id' hsome => ?_⟩
  · by_cases hid : id' = id
    · exact hid ▸ current_projected arch db id' written
    · rw [projected_state_of_ne _ _ _ _ hid] at hsome
      obtain ⟨written', hcur⟩ := h.current id' hsome
      exact ⟨written', by rw [projected_state_of_ne _ _ _ _ hid]; exact hcur⟩
  · by_cases hid : id' = id
    · rw [hid, projected_state_self]
      rfl
    · rw [projected_state_of_ne _ _ _ _ hid]
      exact h.present id' hsome

theorem replayed_eq_of_eventRows_eq {db db' : Store} {id : ℤ}
    (h : db.eventRows id = db'.eventRows id) : db.replayed id = db'.replayed id := by
  rw [Store.replayed, Store.replayed, Store.replayRows, Store.replayRows, h]

/-- One action: its event is replayed last. -/
theorem ticked_apply {db₀ db : Store} {now : DateTime} {done : List TickAction}
    {action : TickAction} (hready : TickReady arch db₀ now) (h : Ticked arch db₀ now done db)
    (hproper : action.Proper action.requestId false)
    (hfresh : ∀ action' ∈ done, action'.requestId ≠ action.requestId)
    (recordedAt written : DateTime) :
    Ticked arch db₀ now (done ++ [action])
      ((db.withEvent (eventColumns action.requestId (.fromWire action.eventType) action.payload
        .scheduler now recordedAt)).projected arch action.requestId written) := by
  set row := eventColumns action.requestId (.fromWire action.eventType) action.payload .scheduler now
    recordedAt with hrow
  have hrows : db.eventRows action.requestId = db₀.eventRows action.requestId :=
    h.untouched _ hfresh
  -- every row of the request is one of the first store, so none sorts after the new one
  have hreplayed : (db.withEvent row).replayed action.requestId =
      db₀.replayed action.requestId ++ [tickEvent action.requestId (db.events.seq + 1)
        (.fromWire action.eventType) action.payload now recordedAt] := by
    rw [hrow, replayed_eventColumns_last recordedAt hproper.eventType_known (by simp)
      hproper.decodes_payload, replayed_eq_of_eventRows_eq hrows]
    · rfl
    · intro a ha
      rw [hrows] at ha
      exact hready.texts_le a (mem_eventRows.1 ha).1
  have hother : ∀ id, id ≠ action.requestId → (db.withEvent row).eventRows id = db.eventRows id := by
    intro id hid
    rw [eventRows_withEvent, if_neg (show row.requestId ≠ id from fun heq => hid heq.symm)]
  refine ⟨h.requests_eq, fun id hid => ?_, fun action' hmem => ?_, fun id hsome => ?_,
    fun id hsome => ?_⟩
  · have hne : id ≠ action.requestId := fun heq => hid action (by simp) heq.symm
    exact (hother id hne).trans
      (h.untouched id fun action' hmem => hid action' (List.mem_append_left _ hmem))
  · rcases List.mem_append.1 hmem with hmem | hmem
    · obtain ⟨eventId, recordedAt', hold⟩ := h.touched action' hmem
      refine ⟨eventId, recordedAt', ?_⟩
      rw [projected_replayed, replayed_eq_of_eventRows_eq (hother _ (hfresh action' hmem)), hold]
    · rw [List.mem_singleton.1 hmem]
      exact ⟨_, recordedAt, hreplayed⟩
  · by_cases hid : id = action.requestId
    · exact hid ▸ current_projected arch _ id written
    · rw [projected_state_of_ne _ _ _ _ hid] at hsome
      obtain ⟨written', hcur⟩ := h.current id hsome
      refine ⟨written', ?_⟩
      rw [projected_state_of_ne _ _ _ _ hid, projected_replayed,
        replayed_eq_of_eventRows_eq (hother id hid)]
      exact hcur
  · by_cases hid : id = action.requestId
    · rw [hid, projected_state_self]
      rfl
    · rw [projected_state_of_ne _ _ _ _ hid]
      exact h.present id hsome

theorem applyTickAction_spec (now : DateTime) (action : TickAction) (db₀ : Store) (tr₀ : List τ) :
    Triple A (fun db tr => db = db₀ ∧ tr = tr₀) (applyTickAction arch now action) fun r db _ =>
      match r with
        | .ok result => result.executed = true → ∃ recordedAt written,
            db = (db₀.withEvent (eventColumns action.requestId (.fromWire action.eventType)
              action.payload .scheduler now recordedAt)).projected arch action.requestId written
        | .error _ => False := by
  unfold applyTickAction
  by_cases hdry : action.dryRun = true
  · rw [if_pos hdry]
    exact Triple.pure fun db tr _ hexecuted => by cases hexecuted
  · rw [if_neg hdry]
    refine Triple.bind (R := fun r db tr => match r with
        | .ok (.ok _) => ∃ recordedAt written, db = (db₀.withEvent (eventColumns action.requestId
            (.fromWire action.eventType) action.payload .scheduler now recordedAt)).projected arch
              action.requestId written
        | .ok (.error _) => True
        | .error _ => False) (Triple.attempt ?_) (fun applied => ?_) (fun _ _ _ h => h)
    · refine (appendAndProject_spec arch db₀ tr₀ _ _ _ _ _).conseq (fun _ _ h => h)
        fun r db tr h => ?_
      cases r with
      | ok a => exact h.2.2
      | error e => trivial
    · cases applied with
      | ok a => exact Triple.pure fun db tr h _ => h
      | error e => exact Triple.pure fun db tr _ hexecuted => by cases hexecuted

/-- All actions of a tick executed: the store is as `Ticked` says, also after the rebuild. -/
theorem applyTickActions_spec {now : DateTime} {actions : List TickAction} (db₀ : Store)
    (tr₀ : List τ) (hready : TickReady arch db₀ now)
    (hproper : ∀ action ∈ actions, action.Proper action.requestId false)
    (hnodup : (actions.map TickAction.requestId).Nodup) :
    Triple A (fun db tr => db = db₀ ∧ tr = tr₀) (applyTickActions arch actions now) fun r db _ =>
      match r with
        | .ok results => (∀ result ∈ results, result.executed = true) →
            Ticked arch db₀ now actions db
        | .error _ => False := by
  unfold applyTickActions
  by_cases hempty : actions.isEmpty = true
  · rw [if_pos hempty, List.isEmpty_iff.1 hempty]
    refine Triple.pure fun db tr h _ => ?_
    rw [h.1]
    exact ticked_start arch hready
  · rw [if_neg hempty]
    refine Triple.bind (R := fun r db _ => match r with
        | .ok results => (∀ result ∈ results, result.executed = true) →
            Ticked arch db₀ now actions db
        | .error _ => False) ?_ (fun results => ?_) (fun _ _ _ h => h)
    · refine (Triple.forEach (fun done results db _ =>
        (∀ result ∈ results, result.executed = true) → Ticked arch db₀ now done db)
        (fun _ _ _ => False) fun done action rest results hsplit => ?_).conseq
        (fun db tr h _ => ?_) (fun r db tr h => ?_)
      · refine Triple.ghost fun db₁ tr₁ h => ?_
        refine (applyTickAction_spec arch now action db₁ tr₁).conseq (fun _ _ h => h)
          fun r db tr hres => ?_
        cases r with
        | error e => exact hres
        | ok result =>
          intro hexecuted
          obtain ⟨recordedAt, written, rfl⟩ := hres (hexecuted result (by simp))
          have hold := h fun result' hmem => hexecuted result' (List.mem_append_left _ hmem)
          refine ticked_apply arch hready hold (hproper action (by rw [hsplit]; simp))
            (fun action' hmem heq => ?_) recordedAt written
          -- another action on the request would stand twice in the list
          rw [hsplit, List.map_append, List.map_cons] at hnodup
          refine (List.nodup_append.1 hnodup).2.2 _ (List.mem_map_of_mem hmem) _
            List.mem_cons_self heq
      · rw [h.1]
        exact ticked_start arch hready
      · cases r with
        | ok results => exact h
        | error e => exact h
    · refine Triple.bind (R := fun r db _ => (∃ a, r = .ok a) ∧
          ((∀ result ∈ results, result.executed = true) → Ticked arch db₀ now actions db))
        (Triple.attempt ?_) (fun _ => Triple.pure fun _ _ h => h.2) (fun e db tr h => ?_)
      · refine (rebuildAllStates_preserves arch (fun db id written h hexecuted =>
          ticked_projected arch (h hexecuted) id written) 500).conseq (fun _ _ h => h)
          fun r db tr h => ⟨⟨r, rfl⟩, h⟩
      · obtain ⟨⟨a, ha⟩, -⟩ := h
        cases ha

/-! ### The second tick -/

/-- The action of a first tick has a follow-up, by the state row its request had. -/
def FollowUpDue (db : Store) (now : DateTime) (first : TickAction) (eventType : String) : Prop :=
  ∃ row ∈ db.requests.rows, row.1 = first.requestId ∧ ∃ state, db.state row.1 = some state ∧
    FollowUp arch (tickCandidate row state) now first.eventType eventType

theorem followUpDue_iff {db : Store} {now : DateTime}
    (hcurrent : ∀ id, (db.state id).isSome → db.Current arch id) {row : ℤ × RequestColumns}
    (hrow : row ∈ db.requests.rows) (hsome : (db.state row.1).isSome) {first : TickAction}
    (hid : first.requestId = row.1) (eventType : String) :
    FollowUpDue arch db now first eventType ↔
      FollowUp arch (Store.candidate arch db row) now first.eventType eventType := by
  obtain ⟨written, hstate⟩ := hcurrent row.1 hsome
  rw [candidate_eq arch db row written]
  constructor
  · rintro ⟨row', hrow', hid', state, hstate', h⟩
    cases row_eq_of_id db.requests hrow' hrow (hid'.trans hid)
    rw [hstate] at hstate'
    cases hstate'
    exact h
  · intro h
    exact ⟨row, hrow, hid.symm, _, hstate, h⟩

/-- The request of an action: the second tick finds the follow-up. -/
theorem second_of_touched {db₀ db : Store} {now : DateTime} {actions : List TickAction}
    (hready : TickReady arch db₀ now) (hticks : Store.Ticks arch db₀ now false actions)
    (hticked : Ticked arch db₀ now actions db) {row : ℤ × RequestColumns}
    (hrow : row ∈ db₀.requests.rows) {first : TickAction} (hfirst : first ∈ actions)
    (hid : first.requestId = row.1) :
    (∃ actions, actionsForCandidate (Store.candidate arch db row) now false = .ok actions) ∧
    ∀ eventType, (∃ second, Acts (Store.candidate arch db row) now false second ∧
        second.eventType = eventType) ↔ FollowUpDue arch db₀ now first eventType := by
  obtain ⟨row', hrow', hsome, hacts⟩ := (hticks.mem_iff first).1 hfirst
  cases row_eq_of_id db₀.requests hrow' hrow (hacts.proper.requestId_eq.symm.trans hid)
  obtain ⟨eventId, recordedAt, hreplayed⟩ := hticked.touched first hfirst
  rw [hid] at hreplayed
  have hafter := acts_after_iff arch hready.not_zero hacts eventId recordedAt
  rw [← hreplayed] at hafter
  refine ⟨hafter.1, fun eventType => ?_⟩
  rw [followUpDue_iff arch (fun id h => hready.current id (Or.inl h)) hrow hsome hid]
  exact hafter.2 eventType

/-- The other requests: the second tick finds nothing. -/
theorem second_of_untouched {db₀ db : Store} {now : DateTime} {actions : List TickAction}
    (hready : TickReady arch db₀ now) (hticks : Store.Ticks arch db₀ now false actions)
    (hticked : Ticked arch db₀ now actions db) {row : ℤ × RequestColumns}
    (hrow : row ∈ db₀.requests.rows) (hid : ∀ first ∈ actions, first.requestId ≠ row.1) :
    (∃ actions, actionsForCandidate (Store.candidate arch db row) now false = .ok actions) ∧
    ∀ second, ¬ Acts (Store.candidate arch db row) now false second := by
  have hsame : Store.candidate arch db row = Store.candidate arch db₀ row := by
    rw [Store.candidate, replayed_eq_of_eventRows_eq (hticked.untouched row.1 hid)]
    rfl
  rw [hsame]
  by_cases hsome : (db₀.state row.1).isSome
  · refine ⟨hticks.total row hrow hsome, fun second hacts => ?_⟩
    exact hid second ((hticks.mem_iff second).2 ⟨row, hrow, hsome, hacts⟩)
      hacts.proper.requestId_eq
  · -- no state row and no decodable event: the request is planned
    have hempty : db₀.replayed row.1 = [] := by
      by_contra hne
      obtain ⟨written, hstate⟩ := hready.current row.1 (Or.inr hne)
      rw [hstate] at hsome
      exact hsome rfl
    have hplanned : (Store.candidate arch db₀ row).currentStatus = "PLANNED" := by
      rw [Store.candidate, hempty]
      rfl
    refine ⟨⟨_, actionsForCandidate_other now false ?_ ?_ ?_ ?_⟩, not_acts_of_status ?_ ?_ ?_ ?_⟩
    all_goals
      rw [hplanned]
      decide

/-- A second tick at the instant of the first, after all its actions were executed, returns
exactly the follow-ups: a further reminder where the days since the request was sent reach the
threshold of the new count, and a complaint where the deadline that was just marked as passed is
14 days past.  Without follow-ups it returns nothing. -/
theorem secondTick {c c₁ c₂ : Conn Store τ} {now : DateTime} {opts : RunOpts}
    (hdry : opts.dryRun = false) (hbatch : opts.batchSize ≤ 0) (hready : TickReady arch c.db now)
    {actions : List TickAction} {results : List ApplyResult}
    (hfirst : runTick opts now c = (.ok actions, c₁))
    (happly : applyTickActions arch actions now c₁ = (.ok results, c₂))
    (hexecuted : ∀ result ∈ results, result.executed = true) :
    (∃ message, (runTick opts now c₂).1 = .error (.database message)) ∨
    ∃ actions₂, (runTick opts now c₂).1 = .ok actions₂ ∧
      (∀ id eventType,
        (∃ second ∈ actions₂, second.requestId = id ∧ second.eventType = eventType) ↔
          ∃ first ∈ actions, first.requestId = id ∧ FollowUpDue arch c.db now first eventType) ∧
      (actions₂ = [] ↔
        ∀ first ∈ actions, ∀ eventType, ¬ FollowUpDue arch c.db now first eventType) := by
  have hcurrent : ∀ id, (c.db.state id).isSome → c.db.Current arch id := fun id h =>
    hready.current id (Or.inl h)
  have htick := (runTick_spec (A := AnyReply) arch hbatch now c.db c.trace hcurrent).run c ⟨rfl, rfl⟩
  rw [hfirst] at htick
  obtain ⟨hdb₁, -, hticks⟩ := htick
  rw [hdry] at hticks
  have hproper : ∀ action ∈ actions, action.Proper action.requestId false := by
    intro action hmem
    obtain ⟨row, -, -, hacts⟩ := (hticks.mem_iff action).1 hmem
    obtain ⟨-, hdry', hknown, hdecodes⟩ := hacts.proper
    exact ⟨rfl, hdry', hknown, hdecodes⟩
  have hticked : Ticked arch c.db now actions c₂.db := by
    have happlied := (applyTickActions_spec (A := AnyReply) arch c.db c₁.trace hready hproper
      hticks.nodup).run c₁ ⟨hdb₁, rfl⟩
    rw [happly] at happlied
    exact happlied hexecuted
  have hsecond := (runTick_spec (A := AnyReply) arch hbatch now c₂.db c₂.trace hticked.current).run
    c₂ ⟨rfl, rfl⟩
  generalize runTick opts now c₂ = result at hsecond
  obtain ⟨r, c₃⟩ := result
  obtain ⟨-, -, hsecond⟩ := hsecond
  rw [hdry] at hsecond
  cases r with
  | error e =>
    cases e with
    | database message => exact Or.inl ⟨message, rfl⟩
    | stopped message =>
      obtain ⟨row, hrow, hsome, hstop⟩ := hsecond
      rw [hticked.requests_eq] at hrow
      exfalso
      by_cases hid : ∃ first ∈ actions, first.requestId = row.1
      · obtain ⟨first, hmem, hid⟩ := hid
        obtain ⟨⟨actions', hok⟩, -⟩ := second_of_touched arch hready hticks hticked hrow hmem hid
        exact hstop actions' hok
      · obtain ⟨⟨actions', hok⟩, -⟩ := second_of_untouched arch hready hticks hticked hrow
          fun first hmem heq => hid ⟨first, hmem, heq⟩
        exact hstop actions' hok
  | ok actions₂ =>
    refine Or.inr ⟨actions₂, rfl, ?_⟩
    have hiff : ∀ id eventType,
        (∃ second ∈ actions₂, second.requestId = id ∧ second.eventType = eventType) ↔
          ∃ first ∈ actions, first.requestId = id ∧ FollowUpDue arch c.db now first eventType := by
      intro id eventType
      constructor
      · rintro ⟨second, hmem, rfl, rfl⟩
        obtain ⟨row, hrow, hsome, hacts⟩ := (hsecond.mem_iff second).1 hmem
        rw [hticked.requests_eq] at hrow
        by_cases hid : ∃ first ∈ actions, first.requestId = row.1
        · obtain ⟨first, hmem', hid⟩ := hid
          refine ⟨first, hmem', hid.trans hacts.proper.requestId_eq.symm, ?_⟩
          exact ((second_of_touched arch hready hticks hticked hrow hmem' hid).2 _).1
            ⟨second, hacts, rfl⟩
        · exact absurd hacts ((second_of_untouched arch hready hticks hticked hrow
            fun first hmem' heq => hid ⟨first, hmem', heq⟩).2 second)
      · rintro ⟨first, hmem, rfl, hdue⟩
        obtain ⟨row, hrow, hid, hstate⟩ := hdue
        obtain ⟨second, hacts, htype⟩ := ((second_of_touched arch hready hticks hticked hrow hmem
          hid.symm).2 eventType).2 ⟨row, hrow, hid, hstate⟩
        refine ⟨second, (hsecond.mem_iff second).2 ⟨row, hticked.requests_eq ▸ hrow, ?_, hacts⟩,
          hacts.proper.requestId_eq.trans hid, htype⟩
        obtain ⟨row', -, hsome', hacts'⟩ := (hticks.mem_iff first).1 hmem
        rw [hid, hacts'.proper.requestId_eq]
        exact hticked.present row'.1 hsome'
    refine ⟨hiff, ?_⟩
    constructor
    · rintro rfl first hmem eventType hdue
      obtain ⟨second, hmem', -⟩ := (hiff first.requestId eventType).2 ⟨first, hmem, rfl, hdue⟩
      cases hmem'
    · intro hnone
      refine List.eq_nil_iff_forall_not_mem.2 fun second hmem => ?_
      obtain ⟨first, hmem', -, hdue⟩ := (hiff second.requestId second.eventType).1
        ⟨second, hmem, rfl, rfl⟩
      exact hnone first hmem' _ hdue

/-- Two ticks at one instant: the actions of the first, their results, and those of the second. -/
def tickTwice (now : DateTime) (c : Conn Store τ) :
    Option (List TickAction × List ApplyResult × List TickAction) :=
  match runTick {} now c with
  | (.error _, _) => none
  | (.ok actions, c₁) =>
      match applyTickActions arch actions now c₁ with
      | (.error _, _) => none
      | (.ok results, c₂) =>
          match (runTick {} now c₂).1 with
          | .ok actions₂ => some (actions, results, actions₂)
          | .error _ => none

theorem tickTwice_eq_some {now : DateTime} {c : Conn Store τ} {actions : List TickAction}
    {results : List ApplyResult} {actions₂ : List TickAction}
    (h : tickTwice arch now c = some (actions, results, actions₂)) :
    ∃ c₁ c₂, runTick {} now c = (.ok actions, c₁) ∧
      applyTickActions arch actions now c₁ = (.ok results, c₂) ∧
      (runTick {} now c₂).1 = .ok actions₂ := by
  unfold tickTwice at h
  rcases hfirst : runTick {} now c with ⟨_ | first, c₁⟩
  · rw [hfirst] at h
    cases h
  · rcases happly : applyTickActions arch first now c₁ with ⟨_ | applied, c₂⟩
    · rw [hfirst] at h
      simp only [happly] at h
      cases h
    · cases hsecond : (runTick {} now c₂).1 with
      | error e =>
        rw [hfirst] at h
        simp only [happly, hsecond] at h
        cases h
      | ok second =>
        rw [hfirst] at h
        simp only [happly, hsecond] at h
        cases h
        exact ⟨c₁, c₂, rfl, happly, hsecond⟩

/-- No event is later than the instant, every action was executed, and the second tick still
returns something. -/
def LeavesActions (now : DateTime) (c : Conn Store τ) : Prop :=
  (∀ row ∈ c.db.events.rows,
    (Timeutil.parseTimestamp row.2.occurredAt).toOption.any fun t => t ≤ now.trunc) ∧
  ((tickTwice arch now c).any fun run =>
    run.2.1.all ApplyResult.executed && !run.2.2.isEmpty) = true

instance (now : DateTime) (c : Conn Store τ) : Decidable (LeavesActions arch now c) :=
  inferInstanceAs (Decidable (_ ∧ _))

/-- A request of a broker. -/
def newRequest (broker : String) : Operation :=
  .createRemovalRequest broker "email" "spring" "GDPR" "gdpr-art17.md.j2" ""

/-- Sent on 2026-01-01, and resolved on 2025-09-01. -/
def dueOnce : List Operation :=
  [newRequest "acme", newRequest "initech",
    .appendAndProject 1 .sent [] .system (.ofSecs 1767225600 jan1_inRange),
    .appendAndProject 2 .confirmed [] .inbox (.ofSecs 1756684800 (by decide))]

/-- On 2026-01-09 a reminder and a re-scan are due; a second tick returns nothing, so neither has
a follow-up. -/
theorem secondTick_dueOnce :
    ∃ actions results, tickTwice .x86_64 (.ofSecs 1767916800 (by decide))
        (runOperations .x86_64 dueOnce (Store.fresh.connect : Conn Store Unit)) =
          some (actions, results, []) ∧ actions.length = 2 ∧
      ∀ first ∈ actions, ∀ eventType, ¬ FollowUpDue .x86_64
        (runOperations .x86_64 dueOnce (Store.fresh.connect : Conn Store Unit)).db
        (.ofSecs 1767916800 (by decide)) first eventType := by
  have hrun : ((tickTwice .x86_64 (.ofSecs 1767916800 (by decide))
      (runOperations .x86_64 dueOnce (Store.fresh.connect : Conn Store Unit))).any fun run =>
        decide (run.1.length = 2) && run.2.1.all ApplyResult.executed && run.2.2.isEmpty) = true := by
    decide +kernel
  cases htwice : tickTwice .x86_64 (.ofSecs 1767916800 (by decide))
      (runOperations .x86_64 dueOnce (Store.fresh.connect : Conn Store Unit)) with
  | none => rw [htwice] at hrun; cases hrun
  | some run =>
    obtain ⟨actions, results, actions₂⟩ := run
    rw [htwice, Option.any_some, Bool.and_eq_true, Bool.and_eq_true, decide_eq_true_eq,
      List.isEmpty_iff] at hrun
    obtain ⟨⟨hlength, hexecuted⟩, rfl⟩ := hrun
    obtain ⟨c₁, c₂, hfirst, happly, hsecond⟩ := tickTwice_eq_some .x86_64 htwice
    have hready : TickReady .x86_64
        (runOperations .x86_64 dueOnce (Store.fresh.connect : Conn Store Unit)).db
        (.ofSecs 1767916800 (by decide)) := by
      refine ⟨by decide, by decide +kernel, allCurrent_runOperations _ _ (by simp [dueOnce,
        newRequest, Operation.Projects]) ?_⟩
      rintro id (hsome | hevents)
      · cases hsome
      · exact absurd rfl hevents
    refine ⟨actions, results, rfl, hlength, ?_⟩
    rcases secondTick .x86_64 rfl le_rfl hready hfirst happly (List.all_eq_true.1 hexecuted) with
      ⟨message, herror⟩ | ⟨actions₂, hok, -, hnone⟩
    · rw [hsecond] at herror
      cases herror
    · rw [hsecond] at hok
      cases hok
      exact hnone.1 rfl

/-- Sent on 2026-01-01 and never reminded; sent on 2025-12-01 and waiting for a response. -/
def longGap : List Operation :=
  [newRequest "acme", newRequest "initech",
    .appendAndProject 1 .sent [] .system (.ofSecs 1767225600 jan1_inRange),
    .appendAndProject 2 .sent [] .system (.ofSecs 1764547200 (by decide)),
    .appendAndProject 2 .verificationProvided [] .user (.ofSecs 1764892800 (by decide))]

/-- Sent on 2026-01-01 twice; the second event is not projected. -/
def staleState : List Operation :=
  [newRequest "acme", newRequest "initech",
    .appendAndProject 1 .sent [] .system (.ofSecs 1767225600 jan1_inRange),
    .appendEvent 2 .sent [] .system (.ofSecs 1767225600 jan1_inRange)]

/-- Sent 31 days before the zero second. -/
def beforeZero : List Operation :=
  [newRequest "acme", .appendAndProject 1 .sent [] .system (.ofSecs (-62138275200) (by decide))]

/-- A second tick finds actions after a long gap, with a stale state, and in the zero second. -/
theorem leavesActions_longGap :
    LeavesActions .x86_64 (.ofSecs 1768953600 (by decide))
      (runOperations .x86_64 longGap (Store.fresh.connect : Conn Store Unit)) ∧
    LeavesActions .x86_64 (.ofSecs 1767916800 (by decide))
      (runOperations .x86_64 staleState (Store.fresh.connect : Conn Store Unit)) ∧
    LeavesActions .x86_64 (.ofSecs (-62135596800) (by decide))
      (runOperations .x86_64 beforeZero (Store.fresh.connect : Conn Store Unit)) := by
  decide +kernel

end EraseMe.Deadlines
