import EraseMe.Library.JsonText
import EraseMe.Library.Parts
import EraseMe.Storage.AppendStatements
import EraseMe.Triage.Prompts

/-!
# `triage_service`: classifying a reply

`Service.classifyReply` takes the latest reply to a request that is not classified, asks the
language model and, when told to save, marks the row of the reply and then appends an event to the
request.  The row and the event are two writes: when the second one fails the row stays marked
without an event, and the next call does not see the reply (`classify_atomic_iff`).
-/

namespace EraseMe.Triage

open Chrono Json Redaction Sqlite Storage

variable {τ : Type}

/-! ### The language model -/

/-- What a call costs. -/
structure UsageRecord where
  model : String := ""
  inputTokens : ℤ := 0
  outputTokens : ℤ := 0
  cacheCreationTokens : ℤ := 0
  cacheReadTokens : ℤ := 0
  cost : ℤ × ℤ := (0, 0)
  deriving DecidableEq, Repr

/-- The answer of a model. -/
structure LlmResponse where
  text : String := ""
  usage : UsageRecord := {}
  deriving DecidableEq, Repr

/-- A call gets the system prompt, the user prompt and the cache key. -/
abbrev LlmCall := String → String → String → Except String LlmResponse

/-- What the program takes from outside: the processor, the regular expressions and the reader of
JSON texts. -/
structure Env extends Reader where
  arch : TargetArch
  engine : Engine

def classifierSystemPrompt : String :=
  "You are a precise email classifier for a data broker removal tool.\n\n" ++
    "Your task is to classify incoming broker reply emails into one of these categories:\n\n" ++
    "- ack: Broker acknowledges receipt. They are processing the request.\n" ++
    "- confirmed: Broker confirms the data has been deleted or account closed.\n" ++
    "- rejected: Broker explicitly rejects the request.\n" ++
    "- verification: Broker asks for more information or identity verification.\n" ++
    "- human_required: The reply requires manual human review.\n" ++
    "- autoresponder: Automated out-of-office, delivery receipt, or receipt notice.\n" ++
    "- bounce: Hard bounce — email address does not exist or mailbox is full.\n" ++
    "- unclear: Cannot confidently classify into any of the above.\n\n" ++
    "Respond with ONLY a JSON object on a single line:\n" ++
    "\x7b\"classification\": \"<label>\", \"confidence\": <0.0-1.0>, \"summary\": \"<text>\", " ++
    "\"extracted_fields\": \x7b\x7d\x7d\n" ++
    "If confidence < 0.4, use \"unclear\" as the fallback classification."

/-- What the prompt says. -/
structure ClassifyOptions where
  brokerName : String := ""
  brokerWebsite : String := ""
  originalSubject : String := ""
  originalSnippet : String := ""
  replySubject : String := ""
  replyBody : String := ""
  cacheKey : String := ""
  deriving DecidableEq, Repr

/-- What came of it. -/
structure ClassifyOutcome where
  result : ClassificationResult
  error : Option String
  usage : UsageRecord

/-- The prompt about a reply. -/
def ClassifyOptions.prompt (options : ClassifyOptions) (env : Env)
    (profile : Option RedactionProfile) : String :=
  goJsonLossy (buildUserPrompt env.engine options.brokerName options.brokerWebsite
    options.originalSubject options.originalSnippet options.replySubject options.replyBody profile)

/-- Ask the model, if there is one. -/
def classifyReply (env : Env) (options : ClassifyOptions) (profile : Option RedactionProfile)
    (llm : Option LlmCall) : ClassifyOutcome :=
  match llm with
  | none => ⟨{ summary := .truncated "Classifier not initialized" }, none, {}⟩
  | some llm =>
      match llm classifierSystemPrompt (options.prompt env profile) options.cacheKey with
      | .ok response => ⟨parseClassificationResponse env.toReader response.text, none, response.usage⟩
      | .error error => ⟨{ summary := .truncated ("API error: " ++ error) }, some error, {}⟩

/-! ### The replies -/

/-- A row of `inbox_replies` without its id. -/
structure ReplyColumns where
  requestId : Option ℤ
  receivedAt : String
  subject : Option String
  snippet : Option String
  classifiedAs : Option String
  classifierConfidence : Option (ℤ × ℤ)
  llmSummary : Option String
  deriving DecidableEq, Repr

/-- The store with the replies. -/
structure Inbox where
  store : Store
  replies : Table ReplyColumns

def Inbox.storePart : Part Inbox Store where
  get db := db.store
  set db store := { db with store := store }
  get_set _ _ := rfl
  set_get _ := rfl

/-- A reply in the store. -/
structure ReplyRow where
  id : ℤ
  subject : String
  snippet : String
  deriving DecidableEq, Repr

/-- `ORDER BY received_at DESC, id DESC`. -/
def LatestLe (a b : ℤ × ReplyColumns) : Prop :=
  a.2.receivedAt > b.2.receivedAt ∨ a.2.receivedAt = b.2.receivedAt ∧ a.1 ≥ b.1

instance : DecidableRel LatestLe := fun a b =>
  inferInstanceAs (Decidable (a.2.receivedAt > b.2.receivedAt ∨
    a.2.receivedAt = b.2.receivedAt ∧ a.1 ≥ b.1))

/-- The latest reply to a request, of all or of those that are not classified. -/
def Inbox.latest (db : Inbox) (requestId : ℤ) (unclassified : Bool) : Option ReplyRow :=
  ((db.replies.rows.filter fun row => row.2.requestId = some requestId ∧
      (unclassified → row.2.classifiedAs = none)).insertionSort LatestLe).head?.map fun row =>
    ⟨row.1, row.2.subject.getD "", row.2.snippet.getD ""⟩

/-- The latest reply. -/
def latestReply (requestId : ℤ) (unclassified : Bool) : Db Inbox τ String (Option ReplyRow) :=
  query fun _ db => db.latest requestId unclassified

/-- A row with the result in it. -/
def ReplyColumns.classified (columns : ReplyColumns) (result : ClassificationResult) :
    ReplyColumns :=
  { columns with
    classifiedAs := some result.classification
    classifierConfidence := some result.confidence
    llmSummary := some result.summary.wireString }

/-! ### The service -/

/-- What the caller knows. -/
structure ClassifyRequest where
  brokerName : String := ""
  brokerWebsite : String := ""
  originalSubject : String := ""
  originalSnippet : String := ""
  deriving DecidableEq, Repr

/-- Append an event by name. -/
def appendEvent (env : Env) (requestId : ℤ) (eventType : String) (payload : Map) (now : DateTime) :
    Db Inbox τ String (ℤ × ProjectionState) :=
  Db.mapError
    (Db.onPart Inbox.storePart
      (appendAndProject env.arch requestId (.fromWire eventType) payload .system now))
    ProjectionError.display

/-- The payload of the event of a classified reply. -/
def classifiedPayload (result : ClassificationResult) (replyId : ℤ) : Map :=
  [("classification", .string result.classification),
    ("confidence", .float result.confidence.1 result.confidence.2),
    ("summary", .string result.summary.wireString),
    ("extracted_fields", .object result.extractedFields), ("reply_id", .int replyId)]

namespace Service

/-- What the model is told about a reply. -/
def optionsFor (options : ClassifyRequest) (reply : ReplyRow) : ClassifyOptions where
  brokerName := options.brokerName
  brokerWebsite := options.brokerWebsite
  originalSubject := options.originalSubject
  originalSnippet := options.originalSnippet
  replySubject := reply.subject
  replyBody := reply.snippet
  cacheKey := "broker:" ++ options.brokerName

/-- Mark the row of a reply and append its event. -/
def saveResult (env : Env) (requestId replyId : ℤ) (result : ClassificationResult)
    (now : DateTime) : Db Inbox τ String Unit := do
  statement fun _ (db : Inbox) =>
    .ok ((), { db with replies := db.replies.update replyId fun row => row.classified result })
  let _ ← appendEvent env requestId result.eventType (classifiedPayload result replyId) now
  return ()

/-- Classify the latest unclassified reply, and save what came of it. -/
def classifyReply (env : Env) (requestId : ℤ) (options : ClassifyRequest)
    (profile : Option RedactionProfile) (llm : Option LlmCall) (save : Bool) (now : DateTime) :
    Db Inbox τ String ClassifyOutcome := do
  match ← latestReply requestId true with
  | none => fail ("no unclassified inbox reply found for request #" ++ toString requestId)
  | some reply =>
      let outcome := Triage.classifyReply env (optionsFor options reply) profile llm
      if save ∧ outcome.error = none then
        saveResult env requestId reply.id outcome.result now
      return outcome

end Service

/-! ### What is classified at once -/

/-- The mark on the row of a reply. -/
def Inbox.mark (db : Inbox) (replyId : ℤ) : Option String :=
  (db.replies.find replyId).bind ReplyColumns.classifiedAs

/-- The row of the reply is marked, and one event with its id was appended and projected. -/
structure Classified (arch : TargetArch) (requestId replyId : ℤ) (db db' : Inbox) : Prop where
  marked : (db'.mark replyId).isSome
  event : ∃ columns payload, db'.store.events = db.store.events.insert columns ∧
    columns.requestId = requestId ∧ columns.payloadJson = payloadText payload ∧
    payload.get "reply_id" = some (.int replyId)
  projected : ∃ now, db'.store.state requestId =
    some (stateColumns (foldEvents arch requestId (db'.store.replayed requestId)) now)

/-- The row of the reply is not marked, no event was appended, and the reply is taken again. -/
structure Pending (requestId : ℤ) (reply : ReplyRow) (db db' : Inbox) : Prop where
  unmarked : db'.mark reply.id = none
  events_eq : db'.store.events = db.store.events
  latest_eq : db'.latest requestId true = some reply

/-- The reply that is taken is classified altogether or not at all. -/
def Atomic (arch : TargetArch) (requestId : ℤ) (db db' : Inbox) : Prop :=
  ∀ reply, db.latest requestId true = some reply →
    Classified arch requestId reply.id db db' ∨ Pending requestId reply db db'

/-- There is no model, or the model answers. -/
def Answers (env : Env) (options : ClassifyOptions) (profile : Option RedactionProfile) :
    Option LlmCall → Prop
  | none => True
  | some llm => ∃ response,
      llm classifierSystemPrompt (options.prompt env profile) options.cacheKey = .ok response

section Conditions

variable (env : Env) (requestId : ℤ) (options : ClassifyRequest) (profile : Option RedactionProfile)
  (llm : Option LlmCall) (c : Conn Inbox τ)

/-- The reply is read by the first statement, the model answers, and the row is marked by the second
statement. -/
structure Marks (reply : ReplyRow) : Prop where
  latest_eq : c.db.latest requestId true = some reply
  answers : Answers env (Service.optionsFor options reply) profile llm
  read : (c.replies 0).error = none
  written : (c.replies 1).error = none

/-- The request exists, and none of the five statements of the append fails. -/
def Appends : Prop :=
  (c.db.store.requests.find requestId).isSome ∧ ∀ i < 5, (c.replies (i + 2)).error = none

/-- Once the row is marked, nothing fails any more. -/
def Undisturbed : Prop :=
  ∀ reply, Marks env requestId options profile llm c reply → Appends requestId c

end Conditions

theorem error_eq_none_iff (env : Env) (options : ClassifyOptions)
    (profile : Option RedactionProfile) (llm : Option LlmCall) :
    (classifyReply env options profile llm).error = none ↔ Answers env options profile llm := by
  cases llm with
  | none => exact iff_of_true rfl trivial
  | some llm =>
    simp only [classifyReply, Answers]
    cases llm classifierSystemPrompt (options.prompt env profile) options.cacheKey with
    | ok response => exact iff_of_true rfl ⟨response, rfl⟩
    | error error =>
      constructor
      · intro h
        cases h
      · rintro ⟨response, h⟩
        cases h

/-- The event type of every outcome is in the catalogue. -/
theorem fromWire_eventType (env : Env) (options : ClassifyOptions)
    (profile : Option RedactionProfile) (llm : Option LlmCall) :
    ∀ v, EventType.fromWire (classifyReply env options profile llm).result.eventType ≠
      .unknown v := by
  rw [← EventType.inCatalogue_iff]
  have hknown : ∀ t ∈ ["ACK", "CONFIRMED", "REJECTED_FINAL", "VERIFICATION_REQUESTED",
      "HUMAN_ACTION_REQUIRED", "AUTORESPONDER", "BOUNCE"], (EventType.fromWire t).InCatalogue := by
    decide
  refine hknown _ ?_
  cases llm with
  | none =>
    show "HUMAN_ACTION_REQUIRED" ∈ _
    decide
  | some llm =>
    simp only [classifyReply]
    cases llm classifierSystemPrompt (options.prompt env profile) options.cacheKey with
    | ok response => exact eventType_parse env.toReader response.text
    | error error =>
      show "HUMAN_ACTION_REQUIRED" ∈ _
      decide

/-- The reply that is taken has a row without a mark. -/
theorem find_of_latest {db : Inbox} {requestId : ℤ} {reply : ReplyRow}
    (h : db.latest requestId true = some reply) :
    ∃ columns, db.replies.find reply.id = some columns ∧ columns.classifiedAs = none := by
  obtain ⟨row, hrow, rfl⟩ := Option.map_eq_some_iff.1 h
  have hmem := (List.mem_insertionSort _).1 (List.mem_of_head? hrow)
  obtain ⟨hmem, hmeets⟩ := List.mem_filter.1 hmem
  simp only [decide_eq_true_eq] at hmeets
  exact ⟨row.2, Table.find_eq_some_iff.2 hmem, hmeets.2 trivial⟩

theorem mark_of_latest {db : Inbox} {requestId : ℤ} {reply : ReplyRow}
    (h : db.latest requestId true = some reply) : db.mark reply.id = none := by
  obtain ⟨columns, hcolumns, hnone⟩ := find_of_latest h
  rw [Inbox.mark, hcolumns]
  exact hnone

/-- Where nothing changes the reply is pending. -/
theorem atomic_self (arch : TargetArch) (requestId : ℤ) (db : Inbox) :
    Atomic arch requestId db db :=
  fun _ h => Or.inr ⟨mark_of_latest h, rfl, h⟩

/-! ### The two writes -/

/-- The rows with the result of one reply. -/
def Inbox.withMark (db : Inbox) (replyId : ℤ) (result : ClassificationResult) : Inbox :=
  { db with replies := db.replies.update replyId fun row => row.classified result }

theorem mark_withMark {db : Inbox} {replyId : ℤ} {columns : ReplyColumns}
    (h : db.replies.find replyId = some columns) (result : ClassificationResult) :
    (db.withMark replyId result).mark replyId = some result.classification := by
  rw [Inbox.mark, Inbox.withMark, Table.find_update, if_pos rfl, h]
  rfl

section Save

variable (env : Env) (requestId : ℤ) (result : ClassificationResult) (payload : Map)
  (now : DateTime) {c : Conn Inbox τ}

/-- The append writes the event and the state, or nothing when something fails. -/
theorem appendEvent_run {eventType : String} (ht : ∀ v, EventType.fromWire eventType ≠ .unknown v)
    (c : Conn Inbox τ) :
    (((c.db.store.requests.find requestId).isSome ∧ ∀ i < 5, (c.replies i).error = none) ∧
      ∃ recordedAt writtenAt,
        (appendEvent env requestId eventType payload now c).2.db = { c.db with
          store := (c.db.store.withEvent (eventColumns requestId (.fromWire eventType) payload
            .system now recordedAt)).projected env.arch requestId writtenAt }) ∨
    (¬ ((c.db.store.requests.find requestId).isSome ∧ ∀ i < 5, (c.replies i).error = none) ∧
      (appendEvent env requestId eventType payload now c).2.db = c.db) := by
  have hs : ∀ v, Source.system ≠ .unknown v := by simp
  have hspec := (Triple.onPart Inbox.storePart (s := c.db) (appendAndProject_spec (A := AnyReply)
    env.arch c.db.store c.trace requestId (.fromWire eventType) payload .system now)).run c
      ⟨rfl, rfl⟩
  have htakes : (Db.onPart Inbox.storePart (appendAndProject (τ := τ) env.arch requestId
      (.fromWire eventType) payload .system now)).Takes 5 :=
    (takes_appendAndProject env.arch requestId payload now).onPart Inbox.storePart
  have hsucceeds := (succeeds_appendAndProject (τ := τ) env.arch requestId payload now ht hs).onPart
    Inbox.storePart
  unfold appendEvent
  cases hrun : Db.onPart Inbox.storePart (appendAndProject env.arch requestId
      (.fromWire eventType) payload .system now) c with
  | mk r c' =>
    rw [hrun] at hspec
    obtain ⟨store, hdb, -, hr⟩ := hspec
    cases r with
    | ok a =>
      obtain ⟨hap, recordedAt, writtenAt, rfl⟩ := hr
      rw [mapError_run_ok hrun]
      exact Or.inl ⟨⟨hap.request_exists, (htakes c a c' hrun).1⟩, recordedAt, writtenAt, hdb⟩
    | error e =>
      obtain ⟨rfl, -⟩ := hr
      rw [mapError_run_error hrun]
      refine Or.inr ⟨fun hall => ?_, hdb⟩
      obtain ⟨a, c'', hok, -⟩ := hsucceeds c hall.1 hall.2
      rw [hrun] at hok
      cases hok

variable (replyId : ℤ)

theorem saveResult_of_fault {e : String} (h : (c.replies 0).error = some e) :
    Service.saveResult env requestId replyId result now c = (.error e, c.next) :=
  bind_run_error (statement_run_error h)

/-- Once the row is marked, the append decides what is left. -/
theorem saveResult_of_row (h : (c.replies 0).error = none) :
    (Service.saveResult env requestId replyId result now c).2 =
      (appendEvent env requestId result.eventType (classifiedPayload result replyId) now
        { c.next with db := c.db.withMark replyId result }).2 := by
  have hrow : statement (fun _ db =>
      .ok ((), { db with replies := db.replies.update replyId fun row => row.classified result })) c =
        (.ok (), { c.next with db := c.db.withMark replyId result }) := statement_run_ok h rfl
  unfold Service.saveResult
  rw [bind_run_ok hrow]
  exact bind_pure_run _ _ _

end Save

/-- The inbox with a reply marked, and its event appended and projected. -/
def Inbox.withReply (db : Inbox) (arch : TargetArch) (requestId replyId : ℤ)
    (result : ClassificationResult) (now recordedAt writtenAt : DateTime) : Inbox :=
  { db.withMark replyId result with
    store := (db.store.withEvent (eventColumns requestId (.fromWire result.eventType)
      (classifiedPayload result replyId) .system now recordedAt)).projected arch requestId
        writtenAt }

section Run

variable (env : Env) (requestId : ℤ) (options : ClassifyRequest) (profile : Option RedactionProfile)
  (llm : Option LlmCall) (now : DateTime) (c : Conn Inbox τ)

/-- What is saved for a reply. -/
def savedResult (reply : ReplyRow) : ClassificationResult :=
  (classifyReply env (Service.optionsFor options reply) profile llm).result

/-- What a call with `save` leaves: nothing new, the mark, or the mark and the event. -/
inductive Leaves : Inbox → Prop
  | nothing (h : ∀ reply, ¬ Marks env requestId options profile llm c reply) : Leaves c.db
  | mark {reply : ReplyRow} (h : Marks env requestId options profile llm c reply)
      (hfault : ¬ Appends requestId c) :
      Leaves (c.db.withMark reply.id (savedResult env options profile llm reply))
  | event {reply : ReplyRow} (h : Marks env requestId options profile llm c reply)
      (happends : Appends requestId c) (recordedAt writtenAt : DateTime) :
      Leaves (c.db.withReply env.arch requestId reply.id
        (savedResult env options profile llm reply) now recordedAt writtenAt)

theorem latestReply_run : latestReply requestId true c = match (c.replies 0).error with
    | some e => (.error e, c.next)
    | none => (.ok (c.db.latest requestId true), c.next) := query_run _ c

theorem leaves_classifyReply :
    Leaves env requestId options profile llm now c
      (Service.classifyReply env requestId options profile llm true now c).2.db := by
  unfold Service.classifyReply
  have hquery := latestReply_run requestId c
  cases h₀ : (c.replies 0).error with
  | some e =>
    rw [h₀] at hquery
    rw [bind_run_error hquery]
    refine .nothing fun reply h => ?_
    rw [h.read] at h₀
    cases h₀
  | none =>
    rw [h₀] at hquery
    rw [bind_run_ok hquery]
    cases hlatest : c.db.latest requestId true with
    | none =>
      refine .nothing fun reply h => ?_
      rw [h.latest_eq] at hlatest
      cases hlatest
    | some reply =>
      dsimp only
      by_cases hanswers : Answers env (Service.optionsFor options reply) profile llm
      · rw [if_pos ⟨rfl, (error_eq_none_iff env _ profile llm).2 hanswers⟩, bind_pure_run]
        cases h₁ : (c.replies 1).error with
        | some e =>
          rw [saveResult_of_fault _ _ _ _ reply.id (c := c.next) h₁]
          refine .nothing fun reply h => ?_
          rw [h.written] at h₁
          cases h₁
        | none =>
          have hmarks : Marks env requestId options profile llm c reply :=
            ⟨hlatest, hanswers, h₀, h₁⟩
          rw [saveResult_of_row _ _ _ _ reply.id (c := c.next) h₁]
          rcases appendEvent_run env requestId (classifiedPayload _ reply.id) now
            (fromWire_eventType env _ profile llm)
            { c.next.next with db := c.db.withMark reply.id (savedResult env options profile llm
              reply) } with ⟨hall, recordedAt, writtenAt, hdb⟩ | ⟨hfault, hdb⟩
          · exact hdb ▸ Leaves.event hmarks hall recordedAt writtenAt
          · exact hdb ▸ Leaves.mark hmarks hfault
      · rw [if_neg fun h => hanswers ((error_eq_none_iff env _ profile llm).1 h.2)]
        refine .nothing fun reply' h => ?_
        obtain rfl := Option.some.inj (hlatest.symm.trans h.latest_eq)
        exact hanswers h.answers

end Run

/-! ### All or nothing -/

section Atomic

variable (arch : TargetArch) {requestId : ℤ} {db : Inbox} {reply : ReplyRow}

/-- A marked row without a new event is neither classified nor pending. -/
theorem not_atomic_withMark (h : db.latest requestId true = some reply)
    (result : ClassificationResult) :
    ¬ Atomic arch requestId db (db.withMark reply.id result) := by
  obtain ⟨columns, hcolumns, -⟩ := find_of_latest h
  intro hatomic
  rcases hatomic reply h with hclassified | hpending
  · obtain ⟨event, -, hevents, -⟩ := hclassified.event
    have hlength := congrArg (fun events => events.rows.length) hevents
    simp [Inbox.withMark] at hlength
  · have hmark := hpending.unmarked
    rw [mark_withMark hcolumns] at hmark
    cases hmark

/-- A reply whose row is marked and whose event is written is classified. -/
theorem classified_withReply (h : db.latest requestId true = some reply)
    (result : ClassificationResult) (now recordedAt writtenAt : DateTime) :
    Classified arch requestId reply.id db
      (db.withReply arch requestId reply.id result now recordedAt writtenAt) := by
  obtain ⟨row, hrow, -⟩ := find_of_latest h
  have hmark := mark_withMark hrow result
  refine ⟨?_, ⟨_, _, rfl, rfl, rfl, rfl⟩, writtenAt, projected_state_self _ _ _ _⟩
  show ((db.withMark reply.id result).mark reply.id).isSome
  rw [hmark]
  rfl

end Atomic

/-- A reply is classified altogether or not at all exactly when nothing fails once its row is
marked. -/
theorem classify_atomic_iff (env : Env) (requestId : ℤ) (options : ClassifyRequest)
    (profile : Option RedactionProfile) (llm : Option LlmCall) (now : DateTime)
    (c : Conn Inbox τ) :
    Atomic env.arch requestId c.db
        (Service.classifyReply env requestId options profile llm true now c).2.db ↔
      Undisturbed env requestId options profile llm c := by
  have hleaves := leaves_classifyReply env requestId options profile llm now c
  generalize (Service.classifyReply env requestId options profile llm true now c).2.db = db'
    at hleaves
  cases hleaves with
  | nothing hnone =>
    exact iff_of_true (atomic_self _ _ _) fun reply h => absurd h (hnone reply)
  | mark h hfault =>
    exact iff_of_false (not_atomic_withMark _ h.latest_eq _) fun hall => hfault (hall _ h)
  | event h happends recordedAt writtenAt =>
    refine iff_of_true (fun reply hreply => ?_) fun _ _ => happends
    obtain rfl := Option.some.inj (h.latest_eq.symm.trans hreply)
    exact Or.inl (classified_withReply _ hreply _ now recordedAt writtenAt)

/-! ### A reply whose event is not written -/

/-- Expressions that find nothing. -/
def quietEngine : Engine where
  rule _ _ := []
  asciiLiteral _ := some fun _ => []
  textLiteral _ := some fun _ => []
  identifier _ := none

def localEnv : Env where
  fromStr text := Json.read (Utf8.encode (String.ofList text))
  final _ _ := false
  arch := .x86_64
  engine := quietEngine

/-- A model that sees a confirmation in every reply. -/
def confirming : LlmCall := fun _ _ _ =>
  .ok { text := "\x7b\"classification\": \"confirmed\", \"confidence\": 1\x7d" }

/-- One request with one reply. -/
def repliedInbox : Inbox where
  store := Store.fresh.withRequest
    ⟨"acme", "email", "spring", "2026-01-01 00:00:00", "gdpr", "gdpr-art17.en.md.j2", ""⟩
  replies := Table.empty.insert
    ⟨some 1, "2026-02-01 00:00:00", some "Re: erasure", some "Done.", none, none, none⟩

/-- The fourth statement fails, which inserts the event. -/
def fullConn : Conn Inbox Unit where
  db := repliedInbox
  trace := []
  replies i := { Reply.plain with
    error := if i = 3 then some "database or disk is full" else none }

theorem not_atomic_fullConn :
    ¬ Atomic localEnv.arch 1 fullConn.db
      (Service.classifyReply localEnv 1 {} none (some confirming) true epoch fullConn).2.db := by
  have hmark : (Service.classifyReply localEnv 1 {} none (some confirming) true epoch
      fullConn).2.db.mark 1 = some "confirmed" := by decide +kernel
  have hevents : (Service.classifyReply localEnv 1 {} none (some confirming) true epoch
      fullConn).2.db.store.events.rows.length = 0 := by decide +kernel
  have hlatest : fullConn.db.latest 1 true = some ⟨1, "Re: erasure", "Done."⟩ := by decide +kernel
  intro hatomic
  rcases hatomic _ hlatest with hclassified | hpending
  · obtain ⟨columns, -, hinsert, -⟩ := hclassified.event
    rw [hinsert, Table.insert_rows, List.length_append] at hevents
    cases hevents
  · rw [hpending.unmarked] at hmark
    cases hmark

end EraseMe.Triage
