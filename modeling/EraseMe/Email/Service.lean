import EraseMe.Email.Policy
import EraseMe.Library.FirstOf

/-!
# `email::service`: poll, correlate, persist, and only then commit the mark

`pollFolders` polls the folders one after another over a `stagingHwmStore`, `matchReplyToRequest`
decides what each message answers, and `pollAndMatch` hands the decisions to the reply store
before it commits the staged marks.  `Polls` says what the polls of a call saw, and
`pollAndMatch_persists` that the durable marks move only after everything kept was inserted.
-/

namespace EraseMe.Email

open Chrono FirstOf

/-! ### `hwm`: marks staged until a commit -/

/-- A staged update. -/
structure StagedMark where
  host : String
  folder : String
  uidValidity : ℕ
  lastUid : ℕ
  deriving DecidableEq, Repr

/-- `StagingHwmStore`: updates are kept beside the underlying store, the newest one is read. -/
def stagingHwmStore {σ : Type} (underlying : HwmStore σ) : HwmStore (List StagedMark × σ) where
  get state host folder :=
    match state.1.reverse.find? fun mark => mark.host = host ∧ mark.folder = folder with
    | some mark => .ok (some mark.uidValidity, some mark.lastUid)
    | none => underlying.get state.2 host folder
  set state host folder uidValidity lastUid :=
    .ok (state.1 ++ [⟨host, folder, uidValidity, lastUid⟩], state.2)

/-- Write the staged updates through, in the order they were staged, up to the first failure. -/
def commit {σ : Type} (underlying : HwmStore σ) : List StagedMark → σ → Except String Unit × σ
  | [], state => (.ok (), state)
  | mark :: staged, state =>
      match underlying.set state mark.host mark.folder mark.uidValidity mark.lastUid with
      | .error cause => (.error ("email: commit high-water mark (" ++ mark.host ++ "/" ++
          mark.folder ++ "): " ++ cause), state)
      | .ok state => commit underlying staged state

/-! ### `policy`: several folders -/

/-- The Message-ID, or the id of a message without one. -/
def keyOf (message : Message) : String :=
  if message.messageId = "" then message.id else message.messageId

/-- Keep a message unless its key was seen. -/
def collect (acc : List String × List Message) (message : Message) : List String × List Message :=
  if keyOf message ∈ acc.1 then acc else (acc.1 ++ [keyOf message], acc.2 ++ [message])

/-- The clock and the answers of the server at one poll. -/
structure Visit where
  now : DateTime
  dialer : ImapDialer

section

variable {σ : Type} (store : HwmStore σ) (world : ℕ → Visit) (config : ImapConfig)

/-- Poll the folders in order; `k` polls went before. -/
def pollEach : ℕ → List String → List String × List Message → σ →
    Except Abort (List String × List Message) × σ
  | _, [], acc, state => (.ok acc, state)
  | k, folder :: folders, acc, state =>
      match pollInboxWithDefaults store (world k).now { config with folder } (world k).dialer
          state with
      | .error abort => (.error abort, state)
      | .ok (messages, state) =>
          pollEach (k + 1) folders ((messages.getD []).foldl collect acc) state

/-- The folders, or the inbox. -/
def foldersOf (folders : List String) : List String :=
  if folders = [] then ["INBOX"] else folders

/-- Poll each folder and drop what was seen before in the call. -/
def pollFolders (folders : List String) (state : σ) : Except Abort (Option (List Message)) × σ :=
  let (result, state) := pollEach store world config 0 (foldersOf folders) ([], []) state
  (result.map fun acc => if acc.2 = [] then none else some acc.2, state)

end

/-! ### `policy`: matching -/

/-- A request that is open. -/
structure RemovalRequest where
  id : ℤ
  brokerId : String
  deriving DecidableEq, Repr

/-- How a message was matched. -/
inductive MatchMethod
  | thread
  | subject
  | unmatched
  deriving DecidableEq, Repr

/-- A message with the decision on it. -/
structure MatchedMessage where
  message : Message
  requestId : Option ℤ
  matchMethod : MatchMethod
  deriving DecidableEq

/-- What replies begin with. -/
def replyPrefixes : List String := ["re", "fwd", "aw", "antwort", "réf", "sv", "vs", "wg", "ref"]

/-- Strip reply prefixes while there is one; a prefix takes as many characters as it has in lower
case, since no other character becomes one of its letters. -/
def stripPrefixes (toLowercase : List Char → List Char) : ℕ → List Char → List Char
  | 0, cleaned => cleaned
  | fuel + 1, cleaned =>
      match replyPrefixes.find? fun p => (p.toList ++ [':']).isPrefixOf (toLowercase cleaned) with
      | some p => stripPrefixes toLowercase fuel (Text.trim (cleaned.drop (p.length + 1)))
      | none => cleaned

/-- The subject without prefixes. -/
def normalizeSubject (toLowercase : List Char → List Char) (subject : List Char) : List Char :=
  stripPrefixes toLowercase subject.length (Text.trim subject)

/-- The subject of a request. -/
def subjectOf (request : RemovalRequest) : List Char :=
  ("Data Deletion Request — " ++ request.brokerId).toList

/-- The decision on one message: the thread before the subject, the last of several requests. -/
def matchMessage (toLowercase : List Char → List Char) (requests : List RemovalRequest)
    (threadMap : String → Option ℤ) (message : Message) : MatchedMessage :=
  let normalized := fun s => toLowercase (normalizeSubject toLowercase s)
  match if message.threadId = "" then none else threadMap message.threadId with
  | some requestId => ⟨message, some requestId, .thread⟩
  | none =>
      match requests.reverse.find? fun request =>
          normalized (subjectOf request) = normalized message.subject.toList with
      | some request => ⟨message, some request.id, .subject⟩
      | none => ⟨message, none, .unmatched⟩

/-- Match messages to requests. -/
def matchReplyToRequest (toLowercase : List Char → List Char) (messages : List Message)
    (requests : List RemovalRequest) (threadMap : String → Option ℤ) : List MatchedMessage :=
  messages.map (matchMessage toLowercase requests threadMap)

/-- The body trimmed and bounded by octets. -/
def parseEmailBody (body : String) (maxLength : ℕ) : String :=
  let trimmed := Text.trim body.toList
  let maxLength := if maxLength = 0 then 500 else maxLength
  let octets := Utf8.encode (String.ofList trimmed)
  if octets.length > maxLength then
    String.ofList (Utf8.lossyPerByte (octets.take maxLength)) ++ "..."
  else String.ofList trimmed

/-! ### `service` -/

/-- The reply store, by the inserts made before. -/
abbrev ReplyStore := List (MatchedMessage × String) → MatchedMessage → String → Except String Unit

/-- What a call returned, the store of marks it left, and the inserts it made. -/
structure Outcome (σ : Type) where
  result : Except Abort (List MatchedMessage)
  state : σ
  inserts : List (MatchedMessage × String)

/-- Insert the replies in order, up to the first failure. -/
def persist (store : ReplyStore) (done : List (MatchedMessage × String)) :
    List MatchedMessage → Except Abort Unit × List (MatchedMessage × String)
  | [] => (.ok (), done)
  | reply :: replies =>
      let snippet := parseEmailBody reply.message.body 200
      match store done reply snippet with
      | .error cause => (.error (.error ⟨"email: persist inbox reply: " ++ cause⟩),
          done ++ [(reply, snippet)])
      | .ok () => persist store (done ++ [(reply, snippet)]) replies

/-- Hand the replies to the store, if there is one, and then write the staged marks through. -/
def persistAndCommit {σ : Type} (hwm : HwmStore σ) (store : Option ReplyStore)
    (matched : List MatchedMessage) (staged : List StagedMark) (state : σ) : Outcome σ :=
  let (persisted, inserts) := match store with
    | some store => persist store [] matched
    | none => (.ok (), [])
  match persisted with
  | .error abort => ⟨.error abort, state, inserts⟩
  | .ok () =>
      match commit hwm staged state with
      | (.error cause, state) =>
          ⟨.error (.error ⟨"email: commit inbox high-water mark: " ++ cause⟩), state, inserts⟩
      | (.ok (), state) => ⟨.ok matched, state, inserts⟩

/-- Poll, match, persist and commit.  A service without a store of marks runs over a fresh
`memoryHwmStore`. -/
def pollAndMatch {σ : Type} (toLowercase : List Char → List Char) (hwm : HwmStore σ)
    (world : ℕ → Visit) (config : ImapConfig) (folders : List String)
    (requests : List RemovalRequest) (threadMap : String → Option ℤ) (store : Option ReplyStore)
    (state : σ) : Outcome σ :=
  match pollFolders (stagingHwmStore hwm) world config folders ([], state) with
  | (.error abort, (_, state)) => ⟨.error abort, state, []⟩
  | (.ok messages, (staged, state)) =>
      persistAndCommit hwm store
        (matchReplyToRequest toLowercase (messages.getD []) requests threadMap) staged state

/-! ### What one poll sees -/

/-- The message of a UID in the answer to the fetch. -/
def handledMessage (fetched : List FetchedMessage) (uid : ℕ) : Option Message :=
  (fetched.reverse.find? fun message => message.uid = uid).bind fun message =>
    (parseFetchedMessage message).toOption

/-- The message is in the since window. -/
def inWindow (since : Option DateTime) (message : Message) : Bool :=
  match since with
  | none => true
  | some since => message.date.any fun date => since ≤ date.utc

/-- What a successful poll saw: the UIDs it handled, the answers to its fetch, and the mark it
set. -/
structure FolderPoll where
  folder : String
  uidValidity : ℕ
  since : Option DateTime
  uids : List ℕ
  fetched : List FetchedMessage
  mark : ℕ

namespace FolderPoll

/-- The messages counted as handled. -/
def handled (p : FolderPoll) : List Message := p.uids.filterMap (handledMessage p.fetched)

/-- The handled messages of the since window. -/
def kept (p : FolderPoll) : List Message := p.handled.filter (inWindow p.since)

/-- The mark to be staged. -/
def staged (p : FolderPoll) (host : String) : StagedMark := ⟨host, p.folder, p.uidValidity, p.mark⟩

end FolderPoll

variable {σ : Type}

/-- The poll is the one that the answers of the server and the marks of the store give. -/
def Saw (store : HwmStore σ) (state : σ) (visit : Visit) (config : ImapConfig) (p : FolderPoll) :
    Prop :=
  ∃ session mark start found, visit.dialer config = .ok session ∧
    p.folder = folderOf config ∧ session.select p.folder = .ok p.uidValidity ∧
    store.get state config.host p.folder = .ok mark ∧
    startUid mark.1 mark.2 p.uidValidity = .ok start ∧
    sinceInstant visit.now config.sinceDays = .ok p.since ∧
    session.searchUid (toString start ++ ":*") p.since = .ok found ∧
    p.uids = window config found ∧ (∀ uid ∈ p.uids, (handledMessage p.fetched uid).isSome) ∧
    if found = [] then p.mark = mark.2.getD 0
    else session.fetch p.uids = .ok p.fetched ∧ p.mark = p.uids.getLastD 0

theorem handleUid_ok_iff {fetched : List FetchedMessage} {since : Option DateTime}
    {acc acc' : List Message × ℕ} {uid : ℕ} :
    handleUid fetched since acc uid = .ok acc' ↔
      ∃ message, handledMessage fetched uid = some message ∧
        acc' = (acc.1 ++ [message].filter (inWindow since), uid) := by
  have hkept (parsed : Message) :
      (if inWindow since parsed = true then acc.1 ++ [parsed] else acc.1) =
        acc.1 ++ [parsed].filter (inWindow since) := by
    by_cases h : inWindow since parsed = true
    · simp [h]
    · simp [h]
  unfold handleUid handledMessage
  cases fetched.reverse.find? fun message => message.uid = uid with
  | none => simp
  | some message =>
    cases hparsed : parseFetchedMessage message with
    | error cause => simp [hparsed, Except.toOption]
    | ok parsed =>
      simp only [hparsed, Option.bind_some, Except.toOption, Option.some.injEq, exists_eq_left',
        ← hkept, Except.ok.injEq]
      exact eq_comm

/-- The loop over the fetched UIDs finds a message for each of them and keeps those of the
window. -/
theorem foldlM_handleUid_ok {fetched : List FetchedMessage} {since : Option DateTime}
    {uids : List ℕ} {acc acc' : List Message × ℕ}
    (h : uids.foldlM (handleUid fetched since) acc = .ok acc') :
    (∀ uid ∈ uids, (handledMessage fetched uid).isSome) ∧
      acc' = (acc.1 ++ (uids.filterMap (handledMessage fetched)).filter (inWindow since),
        uids.getLastD acc.2) := by
  induction uids generalizing acc with
  | nil =>
    cases h
    simp
  | cons uid uids ih =>
    obtain ⟨mid, hstep, hrest⟩ := Result.foldlM_cons_eq_ok.1 h
    obtain ⟨message, hmessage, rfl⟩ := handleUid_ok_iff.1 hstep
    obtain ⟨hsome, hacc⟩ := ih hrest
    refine ⟨?_, ?_⟩
    · intro u hu
      rcases List.mem_cons.1 hu with rfl | hu
      · simp [hmessage]
      · exact hsome u hu
    · rw [hacc, List.filterMap_cons_some hmessage, List.filter_cons, List.getLastD_cons]
      by_cases hw : inWindow since message = true
      · simp [hw]
      · simp [hw]

/-- Everything a successful poll does. -/
theorem poll_saw {store : HwmStore σ} {visit : Visit} {config : ImapConfig} {state state' : σ}
    {result : Option (List Message)}
    (h : pollInboxWithDefaults store visit.now config visit.dialer state = .ok (result, state')) :
    ∃ p : FolderPoll, Saw store state visit config p ∧ result.getD [] = p.kept ∧
      store.set state config.host p.folder p.uidValidity p.mark = .ok state' := by
  unfold pollInboxWithDefaults at h
  obtain ⟨session, hdial, h₁⟩ := Result.bind_eq_ok.1 h
  obtain ⟨uidValidity, hselect, h₂⟩ := Result.bind_eq_ok.1 h₁
  obtain ⟨mark, hmark, h₃⟩ := Result.bind_eq_ok.1 h₂
  obtain ⟨start, hstart, h₄⟩ := Result.bind_eq_ok.1 h₃
  obtain ⟨since, hsince, h₅⟩ := Result.bind_eq_ok.1 h₄
  obtain ⟨found, hfound, h₆⟩ := Result.bind_eq_ok.1 h₅
  rw [Result.mapError_eq_ok] at hdial hselect hmark hfound
  by_cases hempty : found = []
  · rw [if_pos hempty] at h₆
    obtain ⟨state₁, hset, hret⟩ := Result.bind_eq_ok.1 h₆
    rw [Result.mapError_eq_ok] at hset
    cases hret
    refine ⟨⟨folderOf config, uidValidity, since, [], [], mark.2.getD 0⟩, ?_, rfl, hset⟩
    refine ⟨session, mark, start, found, hdial, rfl, hselect, hmark, hstart, hsince, hfound, ?_, ?_,
      ?_⟩
    · simp [hempty, window]
    · simp
    · rw [if_pos hempty]
  · rw [if_neg hempty] at h₆
    obtain ⟨fetched, hfetch, h₇⟩ := Result.bind_eq_ok.1 h₆
    obtain ⟨acc, hloop, h₈⟩ := Result.bind_eq_ok.1 h₇
    obtain ⟨state₁, hset, hret⟩ := Result.bind_eq_ok.1 h₈
    rw [Result.mapError_eq_ok] at hset hfetch
    obtain ⟨hsome, rfl⟩ := foldlM_handleUid_ok hloop
    cases hret
    refine ⟨⟨folderOf config, uidValidity, since, window config found, fetched,
      (window config found).getLastD 0⟩, ?_, ?_, hset⟩
    · refine ⟨session, mark, start, found, hdial, rfl, hselect, hmark, hstart, hsince, hfound, rfl,
        hsome, ?_⟩
      rw [if_neg hempty]
      exact ⟨hfetch, rfl⟩
    · rfl

/-! ### What a call sees -/

/-- The polls of a call, the `k`-th first: each reads the marks the earlier ones staged. -/
def Polls (hwm : HwmStore σ) (world : ℕ → Visit) (config : ImapConfig) (state : σ) :
    ℕ → List StagedMark → List String → List FolderPoll → Prop
  | _, _, [], polls => polls = []
  | k, staged, folder :: folders, polls => ∃ p rest, polls = p :: rest ∧
      Saw (stagingHwmStore hwm) (staged, state) (world k) { config with folder } p ∧
      Polls hwm world config state (k + 1) (staged ++ [p.staged config.host]) folders rest

/-- Collecting messages keeps the first of each key. -/
theorem foldl_collect (messages : List Message) (acc : List String × List Message) :
    messages.foldl collect acc = (acc.1 ++ (firstOf keyOf acc.1 messages).map keyOf,
      acc.2 ++ firstOf keyOf acc.1 messages) := by
  induction messages generalizing acc with
  | nil => simp [firstOf]
  | cons message messages ih =>
    rw [List.foldl_cons, ih, collect, firstOf]
    by_cases h : keyOf message ∈ acc.1
    · simp [h]
    · simp [h]

/-- The loop over the folders stages the marks of its polls, keeps the first message of each key,
and leaves the underlying store alone, also when it fails. -/
theorem pollEach_spec (hwm : HwmStore σ) (world : ℕ → Visit) (config : ImapConfig) (state : σ)
    (k : ℕ) (folders : List String) (acc : List String × List Message) (staged : List StagedMark) :
    (pollEach (stagingHwmStore hwm) world config k folders acc (staged, state)).2.2 = state ∧
      ∀ acc',
        (pollEach (stagingHwmStore hwm) world config k folders acc (staged, state)).1 = .ok acc' →
        ∃ polls, Polls hwm world config state k staged folders polls ∧
          (pollEach (stagingHwmStore hwm) world config k folders acc (staged, state)).2.1 =
            staged ++ polls.map (FolderPoll.staged · config.host) ∧
          acc'.2 = acc.2 ++ firstOf keyOf acc.1 (polls.flatMap FolderPoll.kept) := by
  induction folders generalizing k acc staged with
  | nil =>
    refine ⟨rfl, fun acc' h => ?_⟩
    cases h
    exact ⟨[], rfl, by simp [pollEach], by simp [firstOf]⟩
  | cons folder folders ih =>
    rw [pollEach]
    cases hpoll : pollInboxWithDefaults (stagingHwmStore hwm) (world k).now { config with folder }
        (world k).dialer (staged, state) with
    | error abort => exact ⟨rfl, fun acc' h => by cases h⟩
    | ok polled =>
      obtain ⟨messages, state'⟩ := polled
      obtain ⟨p, hsaw, hkept, hset⟩ := poll_saw hpoll
      obtain rfl : (staged ++ [p.staged config.host], state) = state' := Except.ok.inj hset
      obtain ⟨hstate, hrest⟩ := ih (k + 1) ((messages.getD []).foldl collect acc)
        (staged ++ [p.staged config.host])
      refine ⟨hstate, fun acc' h => ?_⟩
      obtain ⟨polls, hpolls, hstaged, hacc⟩ := hrest acc' h
      refine ⟨p :: polls, ⟨p, polls, rfl, hsaw, hpolls⟩, ?_, ?_⟩
      · simp [hstaged]
      · rw [hacc, foldl_collect, hkept, List.flatMap_cons, firstOf_append, List.append_assoc]

/-- Persisting is done when every reply was inserted. -/
theorem persist_spec (store : ReplyStore) (replies : List MatchedMessage)
    (done : List (MatchedMessage × String)) (h : (persist store done replies).1 = .ok ()) :
    (persist store done replies).2 =
      done ++ replies.map fun reply => (reply, parseEmailBody reply.message.body 200) := by
  induction replies generalizing done with
  | nil => simp [persist]
  | cons reply replies ih =>
    rw [persist] at h ⊢
    cases hstore : store done reply (parseEmailBody reply.message.body 200) with
    | error cause => simp [hstore] at h
    | ok _ =>
      simp only [hstore] at h ⊢
      rw [ih _ h]
      simp

theorem matchMessage_message (toLowercase : List Char → List Char)
    (requests : List RemovalRequest) (threadMap : String → Option ℤ) (message : Message) :
    (matchMessage toLowercase requests threadMap message).message = message := by
  unfold matchMessage
  dsimp only
  split
  · rfl
  · split
    · rfl
    · rfl

/-- Every message of the list was passed to an insert exactly once, unless one before it in the
list is the same. -/
def PassedOnce (same : Message → Message → Prop) (messages : List Message)
    (inserts : List (MatchedMessage × String)) : Prop :=
  ∀ (i : ℕ) (message : Message), messages[i]? = some message →
    (∃ j < i, ∃ earlier, messages[j]? = some earlier ∧ same earlier message) ∨
      (inserts.map fun insert => insert.1.message).count message = 1

/-- Two messages with one key. -/
def SameKey (a b : Message) : Prop := keyOf a = keyOf b

/-- Two messages with one Message-ID. -/
def SameMessageId (a b : Message) : Prop := a.messageId = b.messageId ∧ a.messageId ≠ ""

/-- The window is sorted, so that its last UID is the largest. -/
theorem le_getLastD_window {config : ImapConfig} {found : List ℕ} {uid : ℕ}
    (h : uid ∈ window config found) : uid ≤ (window config found).getLastD 0 := by
  have hsorted : (window config found).Pairwise (· ≤ ·) :=
    (List.pairwise_insertionSort (· ≤ ·) found).sublist (List.take_sublist _ _)
  obtain ⟨init, last, heq⟩ := List.eq_nil_or_concat (window config found) |>.resolve_left
    (List.ne_nil_of_mem h)
  rw [heq, List.concat_eq_append] at hsorted h ⊢
  rw [List.getLastD_concat]
  rcases List.mem_append.1 h with h | h
  · exact (List.pairwise_append.1 hsorted).2.2 uid h last (by simp)
  · exact (List.mem_singleton.1 h).le

/-- What a poll handled lies at or below its mark. -/
theorem Saw.le_mark {store : HwmStore σ} {state : σ} {visit : Visit} {config : ImapConfig}
    {p : FolderPoll} (h : Saw store state visit config p) {message : Message}
    (hmessage : message ∈ p.handled) : message.imapUid ≤ p.mark := by
  obtain ⟨session, mark, start, found, -, -, -, -, -, -, -, huids, -, hmark⟩ := h
  obtain ⟨uid, huid, hhandled⟩ := List.mem_filterMap.1 hmessage
  have hid : message.imapUid = uid := by
    obtain ⟨fetched, hfind, hparsed⟩ := Option.bind_eq_some_iff.1 hhandled
    cases hparse : parseFetchedMessage fetched with
    | error cause => simp [hparse, Except.toOption] at hparsed
    | ok parsed =>
      rw [hparse] at hparsed
      cases hparsed
      rw [parseFetchedMessage_imapUid hparse]
      simpa using List.find?_some hfind
  rw [huids] at huid hmark
  have hne : found ≠ [] := by
    rintro rfl
    simp [window] at huid
  rw [if_neg hne] at hmark
  rw [hid, hmark.2]
  exact le_getLastD_window huid

theorem Polls.le_mark {hwm : HwmStore σ} {world : ℕ → Visit} {config : ImapConfig} {state : σ}
    {k : ℕ} {staged : List StagedMark} {folders : List String} {polls : List FolderPoll}
    (h : Polls hwm world config state k staged folders polls) :
    ∀ p ∈ polls, ∀ message ∈ p.handled, message.imapUid ≤ p.mark := by
  induction folders generalizing k staged polls with
  | nil =>
    intro p hp
    rw [show polls = [] from h] at hp
    cases hp
  | cons folder folders ih =>
    obtain ⟨p, rest, rfl, hsaw, hrest⟩ := h
    intro q hq message hmessage
    rcases List.mem_cons.1 hq with rfl | hq
    · exact hsaw.le_mark hmessage
    · exact ih hrest q hq message hmessage

/-- Inserting every message of the call inserts each kept message once, up to its key. -/
theorem passedOnce_firstOf (toLowercase : List Char → List Char) (requests : List RemovalRequest)
    (threadMap : String → Option ℤ) (kept : List Message) :
    PassedOnce SameKey kept ((matchReplyToRequest toLowercase (firstOf keyOf [] kept) requests
      threadMap).map fun reply => (reply, parseEmailBody reply.message.body 200)) := by
  intro i message hi
  have hinserts : ((matchReplyToRequest toLowercase (firstOf keyOf [] kept) requests threadMap).map
      fun reply => (reply, parseEmailBody reply.message.body 200)).map
        (fun insert => insert.1.message) = firstOf keyOf [] kept := by
    simp [matchReplyToRequest, Function.comp_def, matchMessage_message]
  rw [hinserts]
  rcases count_firstOf keyOf [] hi with h | h | h
  · cases h
  · exact Or.inl h
  · exact Or.inr h

/-- Persisting comes first: a failed insert leaves the marks, and a result means that every reply
was inserted and every mark written. -/
theorem persistAndCommit_spec (hwm : HwmStore σ) (store : Option ReplyStore)
    (replies : List MatchedMessage) (staged : List StagedMark) (state : σ) :
    let out := persistAndCommit hwm store replies staged state
    (∀ replyStore abort, store = some replyStore →
      (persist replyStore [] replies).1 = .error abort →
        out.result = .error abort ∧ out.state = state) ∧
    ∀ matched, out.result = .ok matched → commit hwm staged state = (.ok (), out.state) ∧
      (store.isSome → out.inserts =
        replies.map fun reply => (reply, parseEmailBody reply.message.body 200)) := by
  cases hcommit : commit hwm staged state with
  | mk committed state' =>
    cases store with
    | none =>
      simp only [persistAndCommit, hcommit]
      refine ⟨fun _ _ h => (by cases h), fun matched h => ?_⟩
      cases committed with
      | error cause => cases h
      | ok _ => exact ⟨rfl, fun h => by cases h⟩
    | some store =>
      cases hpersist : persist store [] replies with
      | mk persisted inserts =>
        simp only [persistAndCommit, hcommit, hpersist]
        cases persisted with
        | error abort =>
          refine ⟨fun replyStore abort' h habort => ?_, fun matched h => (by cases h)⟩
          cases h
          rw [hpersist] at habort
          cases habort
          exact ⟨rfl, rfl⟩
        | ok _ =>
          have hinserts := persist_spec store replies [] (by rw [hpersist])
          rw [hpersist, List.nil_append] at hinserts
          refine ⟨fun replyStore abort h habort => ?_, fun matched h => ?_⟩
          · cases h
            rw [hpersist] at habort
            cases habort
          · cases committed with
            | error cause => cases h
            | ok _ => exact ⟨rfl, fun _ => hinserts⟩

section Call

variable (toLowercase : List Char → List Char) (hwm : HwmStore σ) (world : ℕ → Visit)
  (config : ImapConfig) (folders : List String) (requests : List RemovalRequest)
  (threadMap : String → Option ℤ) (store : Option ReplyStore) (state : σ)

/-- A successful polling part of a call, by the polls it made. -/
theorem pollFolders_spec :
    (pollFolders (stagingHwmStore hwm) world config folders ([], state)).2.2 = state ∧
      ∀ messages, (pollFolders (stagingHwmStore hwm) world config folders ([], state)).1 =
          .ok messages →
        ∃ polls, Polls hwm world config state 0 [] (foldersOf folders) polls ∧
          (pollFolders (stagingHwmStore hwm) world config folders ([], state)).2.1 =
            polls.map (FolderPoll.staged · config.host) ∧
          messages.getD [] = firstOf keyOf [] (polls.flatMap FolderPoll.kept) := by
  obtain ⟨hstate, hok⟩ := pollEach_spec hwm world config state 0 (foldersOf folders) ([], []) []
  refine ⟨hstate, fun messages h => ?_⟩
  unfold pollFolders at h ⊢
  dsimp only at h ⊢
  cases hresult : (pollEach (stagingHwmStore hwm) world config 0 (foldersOf folders) ([], [])
      ([], state)).1 with
  | error abort =>
    rw [hresult] at h
    cases h
  | ok acc =>
    rw [hresult] at h
    obtain ⟨polls, hpolls, hstaged, hacc⟩ := hok acc hresult
    refine ⟨polls, hpolls, by simpa using hstaged, ?_⟩
    rw [← Except.ok.inj h, ← List.nil_append (firstOf _ _ _), ← hacc]
    by_cases hnil : acc.2 = []
    · simp [hnil]
    · simp [hnil]

/-- A call whose polling or persisting fails leaves the durable marks as they were; one that
returns has inserted everything it kept, once, before it moved the marks. -/
theorem pollAndMatch_persists {out : Outcome σ}
    (hout : pollAndMatch toLowercase hwm world config folders requests threadMap store state =
      out) :
    (∀ abort, (pollFolders (stagingHwmStore hwm) world config folders ([], state)).1 =
      .error abort → out.result = .error abort ∧ out.state = state) ∧
    (∀ messages replyStore abort,
      (pollFolders (stagingHwmStore hwm) world config folders ([], state)).1 = .ok messages →
      store = some replyStore →
      (persist replyStore [] (matchReplyToRequest toLowercase (messages.getD []) requests
        threadMap)).1 = .error abort → out.result = .error abort ∧ out.state = state) ∧
    ∀ matched, out.result = .ok matched →
      ∃ polls, Polls hwm world config state 0 [] (foldersOf folders) polls ∧
        commit hwm (polls.map (FolderPoll.staged · config.host)) state = (.ok (), out.state) ∧
        (∀ p ∈ polls, ∀ message ∈ p.handled, message.imapUid ≤ p.mark) ∧
        (store.isSome → PassedOnce SameKey (polls.flatMap FolderPoll.kept) out.inserts) := by
  obtain ⟨hstate, hok⟩ := pollFolders_spec hwm world config folders state
  have hpolled : pollFolders (stagingHwmStore hwm) world config folders ([], state) =
      ((pollFolders (stagingHwmStore hwm) world config folders ([], state)).1,
        (pollFolders (stagingHwmStore hwm) world config folders ([], state)).2.1, state) :=
    Prod.ext rfl (Prod.ext rfl hstate)
  unfold pollAndMatch at hout
  rw [hpolled] at hout
  cases hmessages : (pollFolders (stagingHwmStore hwm) world config folders ([], state)).1 with
  | error abort =>
    have haborted : out = ⟨.error abort, state, []⟩ := by simp only [← hout, hmessages]
    refine ⟨fun abort' h => ?_, fun messages replyStore abort' h => ?_, fun matched h => ?_⟩
    · cases h
      rw [haborted]
      exact ⟨rfl, rfl⟩
    · cases h
    · rw [haborted] at h
      cases h
  | ok messages =>
    obtain ⟨polls, hpolls, hstaged, hkept⟩ := hok messages hmessages
    have hsettled : out = persistAndCommit hwm store (matchReplyToRequest toLowercase
        (messages.getD []) requests threadMap) (polls.map (FolderPoll.staged · config.host))
          state := by
      simp only [← hout, hmessages, hstaged]
    obtain ⟨hfail, hdone⟩ := persistAndCommit_spec hwm store (matchReplyToRequest toLowercase
      (messages.getD []) requests threadMap) (polls.map (FolderPoll.staged · config.host)) state
    rw [← hsettled] at hfail hdone
    refine ⟨fun abort h => (by cases h), fun messages' replyStore abort h => ?_,
      fun matched h => ?_⟩
    · cases h
      exact hfail replyStore abort
    · obtain ⟨hcommit, hinserts⟩ := hdone matched h
      refine ⟨polls, hpolls, hcommit, hpolls.le_mark, fun hsome => ?_⟩
      rw [hinserts hsome, hkept]
      exact passedOnce_firstOf toLowercase requests threadMap _

end Call

/-! ### Calls on small mailboxes -/

/-- A message with UID 1 and this subject, at this date. -/
def letter (subject : String) (date : DateTime) : FetchedMessage :=
  ⟨1, Utf8.encode ("Subject: " ++ subject), [], none, some date⟩

/-- The session of a mailbox that holds one message. -/
def oneMessage (message : FetchedMessage) : ImapSession where
  select _ := .ok 7
  searchUid _ _ := .ok [message.uid]
  fetch _ := .ok [message]

/-- A server at an instant, with one letter dated at the epoch in every folder. -/
def server (now : DateTime) : Visit where
  now := now
  dialer config := .ok (oneMessage (letter config.folder epoch))

/-- The poll of a folder of that server. -/
def served (folder : String) (since : Option DateTime) : FolderPoll :=
  ⟨folder, 7, since, [1], [letter folder epoch], 1⟩

/-- A call over fresh marks with a reply store that takes everything. -/
def called (now : DateTime) (config : ImapConfig) (folders : List String) : Outcome HwmRecords :=
  pollAndMatch id memoryHwmStore (fun _ => server now) config folders [] (fun _ => none)
    (some fun _ _ _ => .ok ()) fun _ => none

theorem exists_of_isSome {ε α : Type} {x : Except ε α} (h : x.toOption.isSome) :
    ∃ a, x = .ok a := by
  cases x with
  | error e => cases h
  | ok a => exact ⟨a, rfl⟩

theorem pollAndMatch_persists_inbox :
    ∃ matched polls, (called epoch { host := "mx" } ["INBOX"]).result = .ok matched ∧
      Polls memoryHwmStore (fun _ => server epoch) { host := "mx" } (fun _ => none) 0 [] ["INBOX"]
        polls ∧
      PassedOnce SameKey (polls.flatMap FolderPoll.kept)
        (called epoch { host := "mx" } ["INBOX"]).inserts := by
  obtain ⟨matched, hmatched⟩ := exists_of_isSome
    (show (called epoch { host := "mx" } ["INBOX"]).result.toOption.isSome by decide)
  obtain ⟨-, -, h⟩ := pollAndMatch_persists id memoryHwmStore (fun _ => server epoch)
    { host := "mx" } ["INBOX"] [] (fun _ => none) (some fun _ _ _ => .ok ()) (fun _ => none)
    rfl
  obtain ⟨polls, hpolls, -, -, hpassed⟩ := h matched hmatched
  exact ⟨matched, polls, hmatched, hpolls, hpassed rfl⟩

theorem not_passedOnce {messages : List Message} {inserts : List (MatchedMessage × String)} (i : ℕ)
    (subject : String)
    (hi : messages[i]?.map (fun message => (message.messageId, message.subject)) =
      some ("", subject))
    (hsubject : subject ∉ inserts.map fun insert => insert.1.message.subject) :
    ¬ PassedOnce SameMessageId messages inserts := by
  intro h
  obtain ⟨message, hmessage, hpair⟩ := Option.map_eq_some_iff.1 hi
  obtain ⟨hid, rfl⟩ := Prod.mk.inj hpair
  rcases h i message hmessage with ⟨j, hj, earlier, hearlier, hsame, hne⟩ | hone
  · rw [hsame, hid] at hne
    exact hne rfl
  · have hmem : message ∈ inserts.map fun insert => insert.1.message := by
      rw [← List.count_pos_iff, hone]
      exact Nat.one_pos
    obtain ⟨insert, hinsert, hmessage⟩ := List.mem_map.1 hmem
    exact hsubject (List.mem_map.2 ⟨insert, hinsert, by rw [hmessage]⟩)

/-- An instant ten days after the epoch, and the start of a since window of a day before it. -/
def later : DateTime := .ofSecs 864000 (by decide)

/-- A day before the sample. -/
def aDayBefore : DateTime := .ofSecs 777600 (by decide)

theorem saw_served {staged : List StagedMark} {now : DateTime} (config : ImapConfig)
    {since : Option DateTime} (hfolder : config.folder ≠ "")
    (hmark : ∀ mark ∈ staged, mark.folder ≠ config.folder)
    (hsince : sinceInstant now config.sinceDays = .ok since)
    (hhandled : (handledMessage [letter config.folder epoch] 1).isSome)
    (hwindow : window config [1] = [1]) :
    Saw (stagingHwmStore memoryHwmStore) (staged, fun _ => none) (server now) config
      (served config.folder since) := by
  have hget : (stagingHwmStore memoryHwmStore).get (staged, fun _ => none) config.host
      config.folder = .ok (none, none) := by
    have hnone : (staged.reverse.find? fun mark =>
        mark.host = config.host ∧ mark.folder = config.folder) = none := by
      rw [List.find?_eq_none]
      intro mark hmem
      simp [hmark mark (List.mem_reverse.1 hmem)]
    simp only [stagingHwmStore, hnone, memoryHwmStore]
  refine ⟨oneMessage (letter config.folder epoch), (none, none), 1, [1], rfl, ?_, rfl, hget, rfl,
    hsince, rfl, hwindow.symm, ?_, ?_⟩
  · simp [served, folderOf, hfolder]
  · simpa [served] using hhandled
  · simp [served, oneMessage]

/-- A message older than the since window, and a message without a Message-ID whose UID another
folder had before, are counted as handled and never inserted. -/
theorem handled_not_inserted :
    (∃ matched polls, (called later { host := "mx", sinceDays := 1 } ["INBOX"]).result =
        .ok matched ∧
      Polls memoryHwmStore (fun _ => server later) { host := "mx", sinceDays := 1 } (fun _ => none)
        0 [] ["INBOX"] polls ∧
      ¬ PassedOnce SameMessageId (polls.flatMap FolderPoll.handled)
        (called later { host := "mx", sinceDays := 1 } ["INBOX"]).inserts) ∧
    ∃ matched polls, (called later { host := "mx" } ["INBOX", "Spam"]).result = .ok matched ∧
      Polls memoryHwmStore (fun _ => server later) { host := "mx" } (fun _ => none) 0 []
        ["INBOX", "Spam"] polls ∧
      ¬ PassedOnce SameMessageId (polls.flatMap FolderPoll.handled)
        (called later { host := "mx" } ["INBOX", "Spam"]).inserts := by
  obtain ⟨matched, hmatched⟩ := exists_of_isSome
    (show (called later { host := "mx", sinceDays := 1 } ["INBOX"]).result.toOption.isSome by
      decide)
  obtain ⟨matched', hmatched'⟩ := exists_of_isSome
    (show (called later { host := "mx" } ["INBOX", "Spam"]).result.toOption.isSome by
      decide)
  refine ⟨⟨matched, [served "INBOX" (some aDayBefore)], hmatched, ?_, ?_⟩,
    ⟨matched', [served "INBOX" none, served "Spam" none], hmatched', ?_, ?_⟩⟩
  · refine ⟨_, _, rfl, ?_, rfl⟩
    exact saw_served ({ host := "mx", sinceDays := 1, folder := "INBOX" }) (by decide)
      (by decide) (by decide) (by decide) (by decide)
  · exact not_passedOnce 0 "INBOX" (by decide) (by decide)
  · refine ⟨_, _, rfl, ?_, _, _, rfl, ?_, rfl⟩
    · exact saw_served ({ host := "mx", folder := "INBOX" }) (by decide) (by decide)
        (by decide) (by decide) (by decide)
    · exact saw_served ({ host := "mx", folder := "Spam" }) (by decide) (by decide)
        (by decide) (by decide) (by decide)
  · exact not_passedOnce 1 "Spam" (by decide) (by decide)

end EraseMe.Email
