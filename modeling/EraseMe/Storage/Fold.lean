import EraseMe.Storage.Projection

/-!
# The fold, column by column

`replayEvent` either skips an event or sets the last event, the status its type stands for, and
one or two further columns.  Each column of the folded state is then a fold of its own.
-/

namespace EraseMe.Storage

open Chrono Json

variable (arch : TargetArch)

/-- The events the fold refuses: an empty type, or the zero instant. -/
def EventRecord.Skipped (event : EventRecord) : Prop :=
  event.eventType = .unknown "" ∨ isGoZeroTime event.occurredAt = true

instance (event : EventRecord) : Decidable event.Skipped :=
  inferInstanceAs (Decidable (event.eventType = .unknown "" ∨
    isGoZeroTime event.occurredAt = true))

/-- The state with the status of an event and the event as the last one. -/
def ProjectionState.note (state : ProjectionState) (event : EventRecord) : ProjectionState :=
  { state with
    currentStatus := (statusFor event.eventType).getD state.currentStatus
    lastEventId := event.id
    lastEventAt := some (Timeutil.formatIso event.occurredAt) }

theorem replayEvent_of_skipped {event : EventRecord} (h : event.Skipped)
    (state : ProjectionState) : replayEvent arch state event = state := by
  unfold replayEvent applyEvent
  by_cases ht : event.eventType = .unknown ""
  · rw [if_pos ht]
  · rw [if_neg ht, if_pos (h.resolve_left ht)]

theorem replayEvent_of_not_skipped {event : EventRecord} (h : ¬ event.Skipped)
    (state : ProjectionState) :
    replayEvent arch state event = effect arch event (state.note event) := by
  unfold replayEvent applyEvent ProjectionState.note
  rw [if_neg fun ht => h (Or.inl ht), if_neg fun hz => h (Or.inr hz)]
  cases statusFor event.eventType with
  | none => rfl
  | some status => rfl

/-! ### The effect of one event -/

section Effect

variable (event : EventRecord) (state : ProjectionState)

theorem effect_eq_sent (h : event.eventType = .sent) :
    effect arch event state =
      { state with
        sentAt := some (Timeutil.formatIso event.occurredAt)
        deadlineAt := ((deadlineOf arch event).map Timeutil.formatIso).or state.deadlineAt } := by
  unfold effect
  rw [h]
  cases deadlineOf arch event with
  | none => rfl
  | some deadline => rfl

@[simp] theorem effect_requestId : (effect arch event state).requestId = state.requestId := by
  cases h : event.eventType with
  | sent => rw [effect_eq_sent arch event state h]
  | _ => simp only [effect, h]

@[simp] theorem effect_currentStatus :
    (effect arch event state).currentStatus = state.currentStatus := by
  cases h : event.eventType with
  | sent => rw [effect_eq_sent arch event state h]
  | _ => simp only [effect, h]

@[simp] theorem effect_lastEventId :
    (effect arch event state).lastEventId = state.lastEventId := by
  cases h : event.eventType with
  | sent => rw [effect_eq_sent arch event state h]
  | _ => simp only [effect, h]

@[simp] theorem effect_lastEventAt :
    (effect arch event state).lastEventAt = state.lastEventAt := by
  cases h : event.eventType with
  | sent => rw [effect_eq_sent arch event state h]
  | _ => simp only [effect, h]

@[simp] theorem effect_nextActionAt :
    (effect arch event state).nextActionAt = state.nextActionAt := by
  cases h : event.eventType with
  | sent => rw [effect_eq_sent arch event state h]
  | _ => simp only [effect, h]

theorem effect_deadlineAt : (effect arch event state).deadlineAt =
    if event.eventType = .sent then
      ((deadlineOf arch event).map Timeutil.formatIso).or state.deadlineAt
    else state.deadlineAt := by
  cases h : event.eventType with
  | sent => rw [effect_eq_sent arch event state h, if_pos rfl]
  | _ => simp [effect, h]

theorem effect_escalationLevel : (effect arch event state).escalationLevel =
    if event.eventType = .deadlineReached then 1
    else if event.eventType = .dpaComplaintDrafted then 2
    else state.escalationLevel := by
  cases h : event.eventType with
  | sent => rw [effect_eq_sent arch event state h]; simp
  | _ => simp [effect, h]

end Effect

/-! ### Numbers -/

theorem wrapI64_of_mem {n : ℤ} (hlo : -9223372036854775808 ≤ n) (hhi : n < 9223372036854775808) :
    wrapI64 n = n := by
  rw [wrapI64]
  omega

/-- A number that a double holds exactly is read back as it is. -/
theorem payloadInteger_of_get {payload : Map} {key : String} {n : ℤ}
    (h : payload.get key = some (.int n)) (hlo : 0 < n) (hhi : n < 9007199254740992) :
    payloadInteger arch payload key = some n := by
  have hround : round53 n.natAbs = n.natAbs := if_pos (by omega)
  have hsign : n.sign = 1 := Int.sign_eq_one_of_pos hlo
  rw [payloadInteger, h, Option.bind_some, asF64, Option.map_some, hround, hsign, goFloatToInt,
    truncate]
  simp only [le_refl, if_true, Int.toNat_zero, pow_zero, mul_one, one_mul, Int.natCast_natAbs,
    abs_of_nonneg hlo.le, Option.some.injEq, i64Min, Json.i64Max]
  rw [if_neg (by omega)]
  omega

/-! ### The whole fold -/

theorem replayEvent_requestId (state : ProjectionState) (event : EventRecord) :
    (replayEvent arch state event).requestId = state.requestId := by
  by_cases h : event.Skipped
  · rw [replayEvent_of_skipped arch h]
  · rw [replayEvent_of_not_skipped arch h, effect_requestId]
    rfl

theorem foldEvents_requestId (requestId : ℤ) (events : List EventRecord) :
    (foldEvents arch requestId events).requestId = requestId := by
  suffices h : ∀ state : ProjectionState,
      (events.foldl (replayEvent arch) state).requestId = state.requestId from h _
  induction events with
  | nil => exact fun state => rfl
  | cons event events ih =>
    intro state
    rw [List.foldl_cons, ih, replayEvent_requestId]

theorem foldEvents_append (requestId : ℤ) (events : List EventRecord) (event : EventRecord) :
    foldEvents arch requestId (events ++ [event]) =
      replayEvent arch (foldEvents arch requestId events) event := by
  rw [foldEvents, foldEvents, List.foldl_append]
  rfl

/-- No event sets the next action. -/
theorem foldEvents_nextActionAt (requestId : ℤ) (events : List EventRecord) :
    (foldEvents arch requestId events).nextActionAt = none := by
  induction events using List.reverseRecOn with
  | nil => rfl
  | append_singleton events event ih =>
    rw [foldEvents_append]
    by_cases h : event.Skipped
    · rw [replayEvent_of_skipped arch h, ih]
    · rw [replayEvent_of_not_skipped arch h, effect_nextActionAt]
      exact ih

/-! ### Status, deadline and escalation level -/

/-- The type of the last event that sets the status. -/
def lastTransition (events : List EventRecord) : Option EventType :=
  (events.reverse.find? fun event =>
    ¬ event.Skipped ∧ (statusFor event.eventType).isSome).map EventRecord.eventType

/-- The deadline of the last SENT event that has one. -/
def lastDeadline (events : List EventRecord) : Option DateTime :=
  events.reverse.findSome? fun event =>
    if ¬ event.Skipped ∧ event.eventType = .sent then deadlineOf arch event else none

theorem lastTransition_append (events : List EventRecord) (event : EventRecord) :
    lastTransition (events ++ [event]) =
      if ¬ event.Skipped ∧ (statusFor event.eventType).isSome then some event.eventType
      else lastTransition events := by
  rw [lastTransition, List.reverse_append, List.reverse_singleton, List.singleton_append,
    List.find?_cons]
  by_cases h : ¬ event.Skipped ∧ (statusFor event.eventType).isSome
  · rw [if_pos h]
    simp [h]
  · rw [if_neg h, lastTransition]
    simp only [h, decide_false]

/-- One event more, wherever it is, is the last one that sets the status or changes nothing. -/
theorem lastTransition_insert (l₁ l₂ : List EventRecord) (event : EventRecord) :
    lastTransition (l₁ ++ event :: l₂) = lastTransition (l₁ ++ l₂) ∨
      lastTransition (l₁ ++ event :: l₂) = some event.eventType := by
  induction l₂ using List.reverseRecOn with
  | nil =>
    rw [lastTransition_append, List.append_nil]
    split_ifs
    · exact Or.inr rfl
    · exact Or.inl rfl
  | append_singleton l₂ last ih =>
    rw [← List.cons_append, ← List.append_assoc, ← List.append_assoc, lastTransition_append,
      lastTransition_append]
    split_ifs
    · exact Or.inl rfl
    · exact ih

theorem lastDeadline_append (events : List EventRecord) (event : EventRecord) :
    lastDeadline arch (events ++ [event]) =
      (if ¬ event.Skipped ∧ event.eventType = .sent then deadlineOf arch event else none).or
        (lastDeadline arch events) := by
  rw [lastDeadline, List.reverse_append, List.reverse_singleton, List.singleton_append,
    List.findSome?_cons]
  cases if ¬ event.Skipped ∧ event.eventType = .sent then deadlineOf arch event else none with
  | none => rfl
  | some deadline => rfl

theorem lastDeadline_eq_none {events : List EventRecord}
    (h : ∀ event ∈ events, event.eventType ≠ .sent) : lastDeadline arch events = none := by
  refine List.findSome?_eq_none_iff.2 fun event hevent => ?_
  rw [if_neg fun hsent => h event (List.mem_reverse.1 hevent) hsent.2]

/-- The deadline of the only SENT event. -/
theorem lastDeadline_insert {l₁ l₂ : List EventRecord} {event : EventRecord}
    (hsent : event.eventType = .sent) (hskip : ¬ event.Skipped)
    (h₁ : ∀ e ∈ l₁, e.eventType ≠ .sent) (h₂ : ∀ e ∈ l₂, e.eventType ≠ .sent) :
    lastDeadline arch (l₁ ++ event :: l₂) = deadlineOf arch event := by
  induction l₂ using List.reverseRecOn with
  | nil =>
    rw [lastDeadline_append, if_pos ⟨hskip, hsent⟩, lastDeadline_eq_none arch h₁, Option.or_none]
  | append_singleton l₂ last ih =>
    rw [← List.cons_append, ← List.append_assoc, lastDeadline_append,
      if_neg fun h => h₂ last (by simp) h.2, Option.none_or]
    exact ih fun e he => h₂ e (List.mem_append_left _ he)

theorem foldEvents_currentStatus (requestId : ℤ) (events : List EventRecord) :
    (foldEvents arch requestId events).currentStatus =
      ((lastTransition events).bind statusFor).getD "PLANNED" := by
  induction events using List.reverseRecOn with
  | nil => rfl
  | append_singleton events event ih =>
    rw [foldEvents_append, lastTransition_append]
    by_cases hskip : event.Skipped
    · rw [replayEvent_of_skipped arch hskip, if_neg fun h => h.1 hskip, ih]
    · rw [replayEvent_of_not_skipped arch hskip, effect_currentStatus, ProjectionState.note, ih]
      cases hstatus : statusFor event.eventType with
      | none => simp [hskip]
      | some status => simp [hskip, hstatus]

theorem foldEvents_deadlineAt (requestId : ℤ) (events : List EventRecord) :
    (foldEvents arch requestId events).deadlineAt =
      (lastDeadline arch events).map Timeutil.formatIso := by
  induction events using List.reverseRecOn with
  | nil => rfl
  | append_singleton events event ih =>
    rw [foldEvents_append, lastDeadline_append]
    by_cases hskip : event.Skipped
    · rw [replayEvent_of_skipped arch hskip, if_neg fun h => h.1 hskip, ih, Option.none_or]
    · rw [replayEvent_of_not_skipped arch hskip, effect_deadlineAt, ProjectionState.note, ih]
      by_cases hsent : event.eventType = .sent
      · rw [if_pos hsent, if_pos ⟨hskip, hsent⟩]
        cases deadlineOf arch event with
        | none => rfl
        | some deadline => rfl
      · rw [if_neg hsent, if_neg fun h => hsent h.2, Option.none_or]

/-- Once the deadline is reached, the level is one until the status changes. -/
theorem foldEvents_escalationLevel (requestId : ℤ) (events : List EventRecord)
    (h : lastTransition events = some .deadlineReached) :
    (foldEvents arch requestId events).escalationLevel = 1 := by
  induction events using List.reverseRecOn with
  | nil => cases h
  | append_singleton events event ih =>
    rw [lastTransition_append] at h
    rw [foldEvents_append]
    by_cases hskip : event.Skipped
    · rw [if_neg fun h => h.1 hskip] at h
      rw [replayEvent_of_skipped arch hskip, ih h]
    · rw [replayEvent_of_not_skipped arch hskip, effect_escalationLevel]
      by_cases hstatus : (statusFor event.eventType).isSome
      · rw [if_pos ⟨hskip, hstatus⟩] at h
        rw [if_pos (Option.some.inj h)]
      · rw [if_neg fun h => hstatus h.2] at h
        -- an event without a status is none of the two that set the level
        have hreached : event.eventType ≠ .deadlineReached := fun he => hstatus (by rw [he]; rfl)
        have hdrafted : event.eventType ≠ .dpaComplaintDrafted := fun he =>
          hstatus (by rw [he]; rfl)
        rw [if_neg hreached, if_neg hdrafted]
        exact ih h

end EraseMe.Storage
