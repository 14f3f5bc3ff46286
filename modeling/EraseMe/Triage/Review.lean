import EraseMe.Resolution
import EraseMe.Triage.Service

/-!
# Answers that need a review

The parser computes the flag for a human review and the event type of an answer separately: the
flag is set for a confidence below the threshold, and the event type is that of the label, whatever
the confidence.  An answer with the label `confirmed` or `rejected` and a low confidence is flagged
and resolves the request all the same; every other flagged answer leaves it open
(`review_unresolving_iff`).
-/

namespace EraseMe.Triage

open Chrono Json Redaction Sqlite Storage

/-- The model answers with the text when it is asked about the reply that is taken. -/
def Says (env : Env) (requestId : ℤ) (options : ClassifyRequest)
    (profile : Option RedactionProfile) (llm : LlmCall) (db : Inbox) (response : String) : Prop :=
  ∀ reply, db.latest requestId true = some reply → ∃ usage,
    llm classifierSystemPrompt ((Service.optionsFor options reply).prompt env profile)
      (Service.optionsFor options reply).cacheKey = .ok ⟨response, usage⟩

/-- The event types that resolve a request. -/
def Resolving (t : EventType) : Prop := t = .confirmed ∨ t = .rejectedFinal

instance (t : EventType) : Decidable (Resolving t) :=
  inferInstanceAs (Decidable (t = .confirmed ∨ t = .rejectedFinal))

/-- No event that resolves was saved, and the request was not resolved: neither by the replay of its
log nor in its state. -/
structure Unresolving (arch : TargetArch) (requestId : ℤ) (db db' : Inbox) : Prop where
  saved : ∀ row ∈ db'.store.events.rows, row ∉ db.store.events.rows →
    ¬ Resolving (.fromWire row.2.eventType)
  replayed : Resolved (foldEvents arch requestId (db'.store.replayed requestId)).currentStatus →
    Resolved (foldEvents arch requestId (db.store.replayed requestId)).currentStatus
  projected : ∀ state, db'.store.state requestId = some state → Resolved state.currentStatus →
    db.store.state requestId = some state ∨
      Resolved (foldEvents arch requestId (db.store.replayed requestId)).currentStatus

/-- When the answer is flagged for review, no call that gets it resolves the request. -/
def ReviewSafe (env : Env) (response : String) : Prop :=
  (parseClassificationResponse env.toReader response).needsHumanReview = true →
    ∀ (τ : Type) (c : Conn Inbox τ) (requestId : ℤ) (options : ClassifyRequest)
      (profile : Option RedactionProfile) (llm : LlmCall) (now : DateTime),
      Says env requestId options profile llm c.db response →
        Unresolving env.arch requestId c.db
          (Service.classifyReply env requestId options profile (some llm) true now c).2.db

/-- The confidence as the model wrote it; zero when it wrote no number. -/
def writtenConfidence (data : Map) : ℚ := rational (((data.get "confidence").bind asF64).getD (0, 0))

/-- The answer is an object with the label of a resolution and a confidence below the threshold. -/
def UnsureResolution (reader : Reader) (response : String) : Prop :=
  ∃ data, parseObject reader response.toList = some data ∧
    (writtenLabel reader.final data = some "confirmed" ∨
      writtenLabel reader.final data = some "rejected") ∧
    writtenConfidence data < rational confidenceThresholdLow

/-! ### The flag and the event type -/

theorem threshold_range :
    0 < rational confidenceThresholdLow ∧ rational confidenceThresholdLow ≤ 1 := by
  norm_num [rational, confidenceThresholdLow]

/-- Clamping does not carry a number over the threshold. -/
theorem clampConfidence_lt_iff (data : Map) :
    rational (clampConfidence (data.get "confidence")) < rational confidenceThresholdLow ↔
      writtenConfidence data < rational confidenceThresholdLow := by
  obtain ⟨hpos, hone⟩ := threshold_range
  unfold clampConfidence writtenConfidence
  dsimp only
  split_ifs with hlow hhigh
  · rw [rational_zero]
    exact iff_of_true hpos (hlow.trans hpos)
  · rw [rational_one]
    exact iff_of_false (not_lt.2 hone) (not_lt.2 (hone.trans hhigh.le))
  · rfl

/-- The labels of the two resolutions. -/
theorem resolving_classificationEvent {label : String} (h : (classificationEvent label).isSome) :
    Resolving (.fromWire ((classificationEvent label).getD "")) ↔
      label = "confirmed" ∨ label = "rejected" := by
  unfold classificationEvent at h ⊢
  by_cases hconfirmed : label = "confirmed"
  · subst hconfirmed
    decide
  · by_cases hrejected : label = "rejected"
    · subst hrejected
      decide
    · refine iff_of_false ?_ (by tauto)
      rw [if_neg hconfirmed, if_neg hrejected] at h ⊢
      split_ifs at h ⊢
      all_goals decide

/-- A flagged answer resolves when its label says so and the model is not sure. -/
theorem flagged_resolving_iff (reader : Reader) (response : String) :
    (parseClassificationResponse reader response).needsHumanReview = true ∧
        Resolving (.fromWire (parseClassificationResponse reader response).eventType) ↔
      UnsureResolution reader response := by
  unfold parseClassificationResponse UnsureResolution
  cases parseObject reader response.toList with
  | none =>
    refine iff_of_false ?_ (by simp)
    have hopen : ¬ Resolving (.fromWire "HUMAN_ACTION_REQUIRED") := by decide
    exact fun h => hopen h.2
  | some data =>
    have hevent := resolving_classificationEvent (classificationEvent_label reader.final data)
    have hconfirmed := label_eq_iff reader.final data (show "confirmed" ≠ "unclear" by decide)
    have hrejected := label_eq_iff reader.final data (show "rejected" ≠ "unclear" by decide)
    have hisSome : (classificationEvent "confirmed").isSome ∧
        (classificationEvent "rejected").isSome := by decide
    simp only [hisSome.1, hisSome.2, and_true] at hconfirmed hrejected
    simp only [decide_eq_true_eq, clampConfidence_lt_iff, hevent, Option.some.injEq,
      exists_eq_left', ← hconfirmed, ← hrejected]
    constructor
    · rintro ⟨hflag, hlabel⟩
      refine ⟨hlabel, hflag.resolve_right fun hunclear => ?_⟩
      rw [hunclear] at hlabel
      revert hlabel
      decide
    · rintro ⟨hlabel, hlow⟩
      exact ⟨Or.inl hlow, hlabel⟩

/-! ### One event -/

section Event

variable (arch : TargetArch) (db : Store) (requestId : ℤ) {eventType : EventType} (payload : Map)
  (now recordedAt : DateTime)

/-- An event of the program that does not resolve leaves the request as it was. -/
theorem resolved_of_withEvent (ht : ∀ v, eventType ≠ .unknown v)
    (hopen : ¬ Resolving eventType) (hlink : eventType ≠ .confirmationLinkClicked)
    (h : Resolved (foldEvents arch requestId ((db.withEvent (eventColumns requestId eventType
      payload .system now recordedAt)).replayed requestId)).currentStatus) :
    Resolved (foldEvents arch requestId (db.replayed requestId)).currentStatus := by
  have hid : (eventColumns requestId eventType payload .system now recordedAt).requestId =
    requestId := rfl
  obtain ⟨l₁, l₂, hold, hnew⟩ := exists_replayed_withEvent db hid
  rw [resolved_iff, hnew, decodeEvent_eventColumns _ _ _ _ _ ht (by simp)] at h
  rw [resolved_iff, hold]
  split_ifs at h with hdecodes
  · rcases lastTransition_insert l₁ l₂ (appendedEvent (db.events.seq + 1) requestId eventType payload
      .system now recordedAt) with hsame | hlast
    · exact hsame ▸ h
    · -- the last event that sets the status would be the new one
      rw [show l₁ ++ ((some (appendedEvent (db.events.seq + 1) requestId eventType payload .system
        now recordedAt)).toList ++ l₂) = l₁ ++ appendedEvent (db.events.seq + 1) requestId eventType
          payload .system now recordedAt :: l₂ from rfl, hlast] at h
      simp only [Option.some.injEq] at h
      rcases h with h | h | h
      · exact absurd (Or.inl h) hopen
      · exact absurd (Or.inr h) hopen
      · exact absurd h hlink
  · exact h

end Event

/-! ### One call -/

section Call

variable {env : Env} {requestId : ℤ} {options : ClassifyRequest}
  {profile : Option RedactionProfile} {llm : LlmCall} {response : String}

theorem savedResult_of_saying {db : Inbox} (h : Says env requestId options profile llm db response)
    {reply : ReplyRow} (hreply : db.latest requestId true = some reply) :
    savedResult env options profile (some llm) reply =
      parseClassificationResponse env.toReader response := by
  obtain ⟨usage, hanswer⟩ := h reply hreply
  rw [savedResult, classifyReply]
  simp only [hanswer]

/-- What is left of a request whose log is as it was. -/
theorem unresolving_of_store_eq (arch : TargetArch) (requestId : ℤ) {db db' : Inbox}
    (h : db'.store = db.store) : Unresolving arch requestId db db' := by
  refine ⟨fun row hrow hnew => ?_, ?_, fun state hstate _ => ?_⟩
  · rw [h] at hrow
    exact absurd hrow hnew
  · rw [h]
    exact id
  · rw [h] at hstate
    exact Or.inl hstate

/-- An event that does not resolve leaves the request open. -/
theorem unresolving_withReply (arch : TargetArch) (requestId : ℤ) (db : Inbox) (replyId : ℤ)
    {result : ClassificationResult} (now recordedAt writtenAt : DateTime)
    (hknown : result.eventType ∈ ["ACK", "CONFIRMED", "REJECTED_FINAL", "VERIFICATION_REQUESTED",
      "HUMAN_ACTION_REQUIRED", "AUTORESPONDER", "BOUNCE"])
    (hopen : ¬ Resolving (.fromWire result.eventType)) :
    Unresolving arch requestId db
      (db.withReply arch requestId replyId result now recordedAt writtenAt) := by
  have hall : ∀ t ∈ ["ACK", "CONFIRMED", "REJECTED_FINAL", "VERIFICATION_REQUESTED",
      "HUMAN_ACTION_REQUIRED", "AUTORESPONDER", "BOUNCE"],
      (EventType.fromWire t).InCatalogue ∧
        EventType.fromWire t ≠ .confirmationLinkClicked := by decide
  obtain ⟨hin, hlink⟩ := hall _ hknown
  have ht := (EventType.inCatalogue_iff _).1 hin
  have hreplay := resolved_of_withEvent arch db.store requestId (classifiedPayload result replyId) now
    recordedAt ht hopen hlink
  refine ⟨fun row hrow hnew => ?_, hreplay, fun state hstate hresolved => ?_⟩
  · rcases List.mem_append.1 hrow with hold | hlast
    · exact absurd hold hnew
    · rw [List.mem_singleton.1 hlast]
      show ¬ Resolving (.fromWire (EventType.fromWire result.eventType).asStr)
      rw [EventType.fromWire_asStr ht]
      exact hopen
  · have hself := projected_state_self (db.store.withEvent (eventColumns requestId
      (.fromWire result.eventType) (classifiedPayload result replyId) .system now recordedAt)) arch
        requestId writtenAt
    obtain rfl := Option.some.inj (hself.symm.trans hstate)
    exact Or.inr (hreplay hresolved)

end Call

/-- A call that gets a flagged answer with the label of a resolution resolves the request. -/
theorem not_reviewSafe {env : Env} {response : String}
    (hflag : (parseClassificationResponse env.toReader response).needsHumanReview = true)
    (hresolving : Resolving
      (.fromWire (parseClassificationResponse env.toReader response).eventType)) :
    ¬ ReviewSafe env response := by
  intro hsafe
  let c : Conn Inbox Unit := ⟨repliedInbox, [], fun _ => .plain⟩
  let llm : LlmCall := fun _ _ _ => .ok { text := response }
  have hlatest : c.db.latest 1 true = some ⟨1, "Re: erasure", "Done."⟩ := by decide +kernel
  have hsays : Says env 1 {} none llm c.db response := fun _ _ => ⟨{}, rfl⟩
  have hunresolving := hsafe hflag Unit c 1 {} none llm epoch hsays
  have hleaves := leaves_classifyReply env 1 {} none (some llm) epoch c
  generalize (Service.classifyReply env 1 {} none (some llm) true epoch c).2.db = db'
    at hunresolving hleaves
  cases hleaves with
  | nothing hnone => exact hnone _ ⟨hlatest, ⟨_, rfl⟩, rfl, rfl⟩
  | mark h hfault => exact hfault ⟨rfl, fun _ _ => rfl⟩
  | @event reply h happends recordedAt writtenAt =>
    have ht := fromWire_eventType env (Service.optionsFor {} reply) none (some llm)
    refine hunresolving.saved _ (List.mem_append_right _ (List.mem_singleton_self _))
      List.not_mem_nil ?_
    have hself : EventType.fromWire (EventType.fromWire
        (savedResult env {} none (some llm) reply).eventType).asStr =
          .fromWire (savedResult env {} none (some llm) reply).eventType :=
      EventType.fromWire_asStr ht
    show Resolving (.fromWire (EventType.fromWire _).asStr)
    rw [hself, savedResult_of_saying hsays h.latest_eq]
    exact hresolving

/-- A flagged answer never resolves a request exactly when it does not carry the label of a
resolution with a confidence below the threshold. -/
theorem review_unresolving_iff (env : Env) (response : String) :
    ReviewSafe env response ↔ ¬ UnsureResolution env.toReader response := by
  rw [← flagged_resolving_iff]
  constructor
  · rintro hsafe ⟨hflag, hresolving⟩
    exact not_reviewSafe hflag hresolving hsafe
  · intro hclear hflag τ c requestId options profile llm now hsays
    have hopen := fun h => hclear ⟨hflag, h⟩
    have hleaves := leaves_classifyReply env requestId options profile (some llm) now c
    generalize (Service.classifyReply env requestId options profile (some llm) true now c).2.db =
      db' at hleaves
    cases hleaves with
    | nothing hnone => exact unresolving_of_store_eq _ _ rfl
    | mark h hfault => exact unresolving_of_store_eq _ _ rfl
    | event h happends recordedAt writtenAt =>
      rw [savedResult_of_saying hsays h.latest_eq]
      exact unresolving_withReply _ _ _ _ _ _ _ (eventType_parse _ _) hopen

/-- A confirmation of which the model is not sure at all. -/
def unsureConfirmation : String :=
  "\x7b\"classification\": \"confirmed\", \"confidence\": 0\x7d"

theorem not_reviewSafe_unsureConfirmation : ¬ ReviewSafe localEnv unsureConfirmation :=
  not_reviewSafe (by decide +kernel) (by decide +kernel)

end EraseMe.Triage
